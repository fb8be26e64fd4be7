import Mathlib.Data.Nat.Find
import Mathlib.Data.List.Perm.Basic
import SeL4Kernel.Lib.Bitmap

/-!
# The bits of a word, one after the other

* `setBits w`: the bits that are set, from the lowest one on.
* `forBits body w s`: a loop that takes the lowest bit out of a word until the word is zero.
  It is a fold over the bits that are set (`forBits_eq`).
* `InUse max words count used`: the numbers below `max` that are in use, as bits of words and with
  their count.
-/

namespace SeL4Kernel

open Function List BitVec

/-! ### Bits that are set -/

def setBits (w : BitVec 64) : List ℕ := (List.range 64).filter w.getLsbD

/-- The number of zeros below the lowest bit that is set. -/
def lowestBit (w : BitVec 64) : ℕ := (setBits w).headD 64

variable {w w' : BitVec 64} {i j : ℕ} {ε : Type u} {σ : Type v}

theorem mem_setBits : i ∈ setBits w ↔ w.getLsbD i = true := by
  rw [setBits, mem_filter, mem_range]
  constructor
  · exact fun h => h.2
  · exact fun h => ⟨lt_of_getLsbD h, h⟩

theorem setBits_nodup (w : BitVec 64) : (setBits w).Nodup := nodup_range.filter _

theorem getLsbD_clear (hi : i < 64) (j : ℕ) :
    (w &&& ~~~(1#64 <<< i)).getLsbD j = (w.getLsbD j && decide (j ≠ i)) := by
  rw [getLsbD_and, getLsbD_not, Bitmap.getLsbD_bit hi]
  by_cases hj : j < 64
  · by_cases hji : j = i <;> simp [hj, hji, hi]
  · rw [getLsbD_of_ge w j (Nat.not_lt.1 hj)]
    rfl

theorem getLsbD_set (hi : i < 64) (j : ℕ) :
    (w ||| 1#64 <<< i).getLsbD j = (w.getLsbD j || decide (j = i)) := by
  rw [getLsbD_or, Bitmap.getLsbD_bit hi]

theorem eq_zero_iff_setBits : w = 0 ↔ setBits w = [] := by
  constructor
  · rintro rfl
    rw [eq_nil_iff_forall_not_mem]
    intro i hi
    simp [mem_setBits] at hi
  · intro h
    refine eq_of_getLsbD_eq fun i _ => ?_
    cases hi : w.getLsbD i with
    | false => simp
    | true =>
      have hmem := mem_setBits.2 hi
      rw [h] at hmem
      cases hmem

/-- The first number of a range that has the property. -/
theorem headD_filter_range' {p : ℕ → Bool} {k s : ℕ} (hs : s ≤ i) (hi : i < s + k) (hp : p i = true)
    (hno : ∀ j, s ≤ j → j < i → p j = false) (d : ℕ) :
    ((List.range' s k).filter p).headD d = i := by
  induction k generalizing s with
  | zero => omega
  | succ k ih =>
    rw [List.range'_succ]
    rcases Nat.eq_or_lt_of_le hs with rfl | hlt
    · rw [filter_cons_of_pos hp]
      rfl
    · rw [filter_cons_of_neg (by simp [hno s (Nat.le_refl s) hlt])]
      exact ih hlt (by omega) fun j hj => hno j (by omega)

theorem lowestBit_eq (hi : w.getLsbD i = true) (hno : ∀ j, j < i → w.getLsbD j = false) :
    lowestBit w = i := by
  have hlt := lt_of_getLsbD hi
  rw [lowestBit, setBits, range_eq_range']
  exact headD_filter_range' (Nat.zero_le i) (by omega) hi (fun j _ => hno j) 64

theorem getLsbD_lowestBit (h : w ≠ 0) : w.getLsbD (lowestBit w) = true := by
  rw [← mem_setBits]
  have hne : setBits w ≠ [] := fun hc => h (eq_zero_iff_setBits.2 hc)
  obtain ⟨i, l, hil⟩ := exists_cons_of_ne_nil hne
  rw [lowestBit, hil]
  exact mem_cons_self

/-- The lowest bit is the first one, and without it the others are left. -/
theorem setBits_cons (h : w ≠ 0) :
    setBits w = lowestBit w :: setBits (w &&& ~~~(1#64 <<< lowestBit w)) := by
  have hne : setBits w ≠ [] := fun hc => h (eq_zero_iff_setBits.2 hc)
  obtain ⟨i, l, hil⟩ := exists_cons_of_ne_nil hne
  have hlow : lowestBit w = i := by rw [lowestBit, hil]; rfl
  have hi : i < 64 := by
    have hmem : i ∈ setBits w := hil ▸ mem_cons_self
    exact lt_of_getLsbD (mem_setBits.1 hmem)
  have hnodup := setBits_nodup w
  rw [hil, nodup_cons] at hnodup
  have hrest : setBits (w &&& ~~~(1#64 <<< i)) = (setBits w).filter fun j => decide (j ≠ i) := by
    rw [setBits, setBits, filter_filter]
    refine filter_congr fun j _ => ?_
    rw [getLsbD_clear hi, Bool.and_comm]
  have hl : l.filter (fun j => decide (j ≠ i)) = l := by
    rw [filter_eq_self]
    intro j hj
    refine decide_eq_true ?_
    rintro rfl
    exact hnodup.1 hj
  rw [hlow, hrest, hil, filter_cons_of_neg (by simp), hl]

/-! ### Loops over bits -/

universe u v

/-- The loop, with a bound on its rounds. -/
def forBits (stuck : ε) (body : ℕ → σ → Except ε σ) : ℕ → BitVec 64 → σ → Except ε σ
  | 0, _, _ => .error stuck
  | fuel + 1, w, s =>
    if w = 0 then .ok s
    else body (lowestBit w) s >>= forBits stuck body fuel (w &&& ~~~(1#64 <<< lowestBit w))

theorem forBits_eq {stuck : ε} {body : ℕ → σ → Except ε σ} {fuel : ℕ} {s : σ}
    (hfuel : (setBits w).length < fuel) :
    forBits stuck body fuel w s = (setBits w).foldlM (fun s i => body i s) s := by
  induction fuel generalizing w s with
  | zero => omega
  | succ fuel ih =>
    rw [forBits]
    by_cases hzero : w = 0
    · rw [if_pos hzero, eq_zero_iff_setBits.1 hzero]
      rfl
    have hcons := setBits_cons hzero
    rw [if_neg hzero, hcons, foldlM_cons]
    rw [hcons, length_cons] at hfuel
    have hrest : forBits stuck body fuel (w &&& ~~~(1#64 <<< lowestBit w)) =
        fun s => (setBits (w &&& ~~~(1#64 <<< lowestBit w))).foldlM (fun s i => body i s) s :=
      funext fun s => ih (by omega)
    rw [hrest]

theorem length_setBits_le (w : BitVec 64) : (setBits w).length ≤ 64 := by
  have hle := length_filter_le w.getLsbD (List.range 64)
  exact hle

/-! ### One more -/

/-- A predicate that gets true of one more number. -/
theorem length_filter_insert {n : ℕ} {p q : ℕ → Bool} (hi : i < n) (hp : p i = false)
    (hq : q i = true) (heq : ∀ j, j ≠ i → q j = p j) :
    ((List.range n).filter q).length = ((List.range n).filter p).length + 1 := by
  have hperm : ((List.range n).filter q).Perm (i :: (List.range n).filter p) := by
    refine (perm_ext_iff_of_nodup (nodup_range.filter q) ?_).2 fun j => ?_
    · refine nodup_cons.2 ⟨?_, nodup_range.filter p⟩
      intro hmem
      rw [(mem_filter.1 hmem).2] at hp
      cases hp
    · rw [mem_filter]
      by_cases hji : j = i
      · subst hji
        simp [hi, hq]
      · rw [heq j hji]
        simp [hji]
  exact hperm.length_eq

theorem setBits_set (hi : i < 64) (hw : w.getLsbD i = false) :
    (setBits (w ||| 1#64 <<< i)).length = (setBits w).length + 1 :=
  length_filter_insert hi hw (by rw [getLsbD_set hi]; simp)
    fun j hj => by rw [getLsbD_set hi]; simp [hj]

theorem setBits_clear (hi : i < 64) (hw : w.getLsbD i = true) :
    (setBits (w &&& ~~~(1#64 <<< i))).length + 1 = (setBits w).length :=
  (length_filter_insert hi (by rw [getLsbD_clear hi]; simp) hw
    fun j hj => by rw [getLsbD_clear hi]; simp [hj]).symm

/-! ### Numbers in use -/

/-- The numbers below `max` that are in use: as bits of words, and how many there are. -/
structure InUse (max : ℕ) (words : ℕ → BitVec 64) (count : ℕ) (used : ℕ → Bool) : Prop where
  bit : ∀ id, id < max → (words (id / 64)).getLsbD (id % 64) = used id
  count : count = ((List.range max).filter used).length

namespace InUse

variable {max count id : ℕ} {words : ℕ → BitVec 64} {used : ℕ → Bool} {α : Type u} {table : ℕ → α}
  {e : α}

/-- The lowest number that is not in use. -/
theorem exists_free (h : InUse max words count used) (hlt : count < max) :
    ∃ f, f < max ∧ f ≤ count ∧ used f = false ∧ ∀ j, j < f → used j = true := by
  have hsome : ∃ f, f < max ∧ used f = false := by
    by_contra hno
    push Not at hno
    have hall : (List.range max).filter used = List.range max :=
      filter_eq_self.2 fun j hj => eq_true_of_ne_false (hno j (mem_range.1 hj))
    have hcount := h.count
    rw [hall, length_range] at hcount
    omega
  obtain ⟨hfmax, hffree⟩ := Nat.find_spec hsome
  have hmin : ∀ j, j < Nat.find hsome → used j = true := by
    intro j hj
    have hnot := Nat.find_min hsome hj
    exact eq_true_of_ne_false fun hused => hnot ⟨by omega, hused⟩
  refine ⟨Nat.find hsome, hfmax, ?_, hffree, hmin⟩
  rw [h.count]
  have hsub : List.range (Nat.find hsome) ⊆ (List.range max).filter used := by
    intro j hj
    have hlt' := mem_range.1 hj
    exact mem_filter.2 ⟨mem_range.2 (by omega), hmin j hlt'⟩
  have hle := (subperm_of_subset nodup_range hsub).length_le
  rw [length_range] at hle
  exact hle

/-- One entry of the table changes, and with it one bit. -/
theorem bit_update {read : α → Bool} (h : InUse max words count fun i => read (table i))
    (hw : ∀ j, w.getLsbD j = if j = id % 64 then read e else (words (id / 64)).getLsbD j) (k : ℕ)
    (hk : k < max) :
    (update words (id / 64) w (k / 64)).getLsbD (k % 64) = read (update table id e k) := by
  by_cases hkid : k = id
  · rw [hkid, update_self, update_self, hw, if_pos rfl]
  rw [update_of_ne hkid, ← h.bit k hk]
  by_cases hdiv : k / 64 = id / 64
  · rw [hdiv, update_self, hw, if_neg (by omega)]
  · rw [update_of_ne hdiv]

/-- An entry of a table gets into use. -/
theorem fill (read : α → Bool) (h : InUse max words count fun i => read (table i)) (hid : id < max)
    (hfree : read (table id) = false) (he : read e = true) :
    InUse max (update words (id / 64) (words (id / 64) ||| 1#64 <<< (id % 64)))
      (count + 1) fun i => read (update table id e i) := by
  refine ⟨h.bit_update fun j => ?_, ?_⟩
  · rw [getLsbD_set (Nat.mod_lt _ (by decide)), he]
    by_cases hj : j = id % 64 <;> simp [hj]
  · rw [length_filter_insert hid hfree (by rw [update_self, he])
      fun j hj => congrArg read (update_of_ne hj e table), ← h.count]

/-- An entry gets out of use. -/
theorem unfill (read : α → Bool) (h : InUse max words count fun i => read (table i))
    (hid : id < max) (hused : read (table id) = true) (he : read e = false) :
    InUse max (update words (id / 64) (words (id / 64) &&& ~~~(1#64 <<< (id % 64))))
      (count - 1) fun i => read (update table id e i) := by
  refine ⟨h.bit_update fun j => ?_, ?_⟩
  · rw [getLsbD_clear (Nat.mod_lt _ (by decide)), he]
    by_cases hj : j = id % 64 <;> simp [hj]
  · rw [h.count, length_filter_insert hid (by rw [update_self, he]) hused
      fun j hj => congrArg read (update_of_ne hj e table).symm, Nat.add_sub_cancel]

end InUse

end SeL4Kernel
