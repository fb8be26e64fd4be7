import SeL4Kernel.Lib.Word

/-!
# Two-level bitmaps

A set of numbers as the bits of words: number `p` is bit `p % 64` of row `p / 64`,
and a summary word tells which rows are not empty. The largest number in the set
is found with two counts of leading zeros.

`Bitmap.Holds b S` says that `b` represents the set `S`. A set has one
representation only (`Holds.unique`), so what the operations do is said by what
they do to the set:

* `Holds.insert`, `Holds.remove`;
* `Holds.highest_eq`: the largest number;
* `Holds.summary_eq_zero`: the empty set.
-/

namespace SeL4Kernel

structure Bitmap where
  summary : BitVec 64
  row : Nat → BitVec 64

namespace Bitmap

@[ext] theorem ext {b b' : Bitmap} (hs : b.summary = b'.summary) (hr : b.row = b'.row) :
    b = b' := by
  obtain ⟨s, r⟩ := b
  cases hs
  cases hr
  rfl

def insert (p : Nat) (b : Bitmap) : Bitmap where
  summary := b.summary ||| 1#64 <<< (p / 64)
  row := Function.update b.row (p / 64) (b.row (p / 64) ||| 1#64 <<< (p % 64))

def remove (p : Nat) (b : Bitmap) : Bitmap where
  summary :=
    if b.row (p / 64) &&& ~~~(1#64 <<< (p % 64)) = 0 then b.summary &&& ~~~(1#64 <<< (p / 64))
    else b.summary
  row := Function.update b.row (p / 64) (b.row (p / 64) &&& ~~~(1#64 <<< (p % 64)))

def highest (b : Bitmap) : Nat :=
  64 * highestBit b.summary + highestBit (b.row (highestBit b.summary))

/-- `b` represents the set `S`. -/
structure Holds (b : Bitmap) (S : Nat → Prop) : Prop where
  mem : ∀ p, (b.row (p / 64)).getLsbD (p % 64) = true ↔ S p
  top : ∀ i, b.summary.getLsbD i = true ↔ b.row i ≠ 0

variable {b b' : Bitmap} {S : Nat → Prop} {p : Nat}

theorem getLsbD_bit {i j : Nat} (hi : i < 64) : (1#64 <<< i).getLsbD j = decide (j = i) := by
  by_cases hj : j = i
  · subst hj
    simp [hi]
  · by_cases hlt : j < i
    · simp [hlt, hj]
    · have hpos : j - i ≠ 0 := by omega
      simp [hj, hpos]

/-- The bits of a row are the numbers of its range. -/
theorem Holds.row_bit (h : b.Holds S) (i j : Nat) :
    (b.row i).getLsbD j = true ↔ j < 64 ∧ S (64 * i + j) := by
  by_cases hj : j < 64
  · have hm := h.mem (64 * i + j)
    rw [show (64 * i + j) / 64 = i by omega, show (64 * i + j) % 64 = j by omega] at hm
    rw [hm]
    simp [hj]
  · simp [hj, BitVec.getLsbD_of_ge _ _ (Nat.le_of_not_lt hj)]

theorem Holds.row_ne_zero (h : b.Holds S) (i : Nat) : b.row i ≠ 0 ↔ ∃ j < 64, S (64 * i + j) := by
  constructor
  · intro hne
    have hbit := (h.row_bit i _).1 (getLsbD_highestBit hne)
    exact ⟨_, hbit.1, hbit.2⟩
  · rintro ⟨j, hj, hS⟩ hz
    have hbit := (h.row_bit i j).2 ⟨hj, hS⟩
    rw [hz] at hbit
    simp at hbit

/-- Words without a bit set represent the empty set. -/
theorem holds_empty (hs : b.summary = 0) (hr : ∀ i, b.row i = 0) : b.Holds (fun _ => False) := by
  refine ⟨fun p => ?_, fun i => ?_⟩
  · rw [hr]
    simp
  · rw [hs, hr]
    simp

variable (h : b.Holds S)

include h

/-- **A set has one representation.** -/
theorem Holds.unique (h' : b'.Holds S) : b = b' := by
  have hrow : b.row = b'.row := by
    funext i
    apply BitVec.eq_of_getLsbD_eq
    intro j _
    rw [Bool.eq_iff_iff, h.row_bit, h'.row_bit]
  refine Bitmap.ext (BitVec.eq_of_getLsbD_eq fun i _ => ?_) hrow
  rw [Bool.eq_iff_iff, h.top, h'.top, hrow]

/-- **Insertion.** -/
theorem Holds.insert (hp : p < 64 * 64) : (b.insert p).Holds (fun q => q = p ∨ S q) := by
  have hrow : ∀ i, (b.insert p).row i =
      if i = p / 64 then b.row i ||| 1#64 <<< (p % 64) else b.row i := by
    intro i
    by_cases hi : i = p / 64
    · subst hi
      simp [Bitmap.insert]
    · simp [Bitmap.insert, hi]
  have hmem : ∀ q, ((b.insert p).row (q / 64)).getLsbD (q % 64) = true ↔ q = p ∨ S q := by
    intro q
    rw [hrow, ← h.mem q]
    by_cases hq : q / 64 = p / 64
    · rw [if_pos hq, BitVec.getLsbD_or, getLsbD_bit (Nat.mod_lt _ (by decide)), Bool.or_eq_true,
        decide_eq_true_eq, show q % 64 = p % 64 ↔ q = p by omega, or_comm]
    · rw [if_neg hq]
      have hne : q ≠ p := fun he => hq (by rw [he])
      simp [hne]
  refine ⟨hmem, fun i => ?_⟩
  have hsum : (b.insert p).summary.getLsbD i = true ↔ b.row i ≠ 0 ∨ i = p / 64 := by
    show (b.summary ||| 1#64 <<< (p / 64)).getLsbD i = true ↔ _
    rw [BitVec.getLsbD_or, getLsbD_bit (by omega), Bool.or_eq_true, h.top, decide_eq_true_eq]
  rw [hsum]
  by_cases hi : i = p / 64
  · have hp' := (hmem p).2 (Or.inl rfl)
    rw [← hi] at hp'
    have hne : (b.insert p).row i ≠ 0 := by
      intro hz
      rw [hz] at hp'
      simp at hp'
    exact ⟨fun _ => hne, fun _ => Or.inr hi⟩
  · rw [hrow, if_neg hi]
    exact ⟨fun hor => hor.resolve_right hi, Or.inl⟩

/-- **Removal.** -/
theorem Holds.remove (p : Nat) : (b.remove p).Holds (fun q => q ≠ p ∧ S q) := by
  have hrow : ∀ i, (b.remove p).row i =
      if i = p / 64 then b.row i &&& ~~~(1#64 <<< (p % 64)) else b.row i := by
    intro i
    by_cases hi : i = p / 64
    · subst hi
      simp [Bitmap.remove]
    · simp [Bitmap.remove, hi]
  have hmem : ∀ q, ((b.remove p).row (q / 64)).getLsbD (q % 64) = true ↔ q ≠ p ∧ S q := by
    intro q
    have hlt : q % 64 < 64 := Nat.mod_lt _ (by decide)
    rw [hrow, ← h.mem q]
    by_cases hq : q / 64 = p / 64
    · rw [if_pos hq, BitVec.getLsbD_and, BitVec.getLsbD_not, getLsbD_bit (Nat.mod_lt _ (by decide)),
        decide_eq_true hlt, Bool.true_and, Bool.and_eq_true, Bool.not_eq_true',
        decide_eq_false_iff_not, show q % 64 = p % 64 ↔ q = p by omega, and_comm]
    · rw [if_neg hq]
      have hne : q ≠ p := fun he => hq (by rw [he])
      simp [hne]
  refine ⟨hmem, fun i => ?_⟩
  have hsum : (b.remove p).summary =
      if b.row (p / 64) &&& ~~~(1#64 <<< (p % 64)) = 0 then
        b.summary &&& ~~~(1#64 <<< (p / 64)) else b.summary := rfl
  rw [hsum, hrow]
  by_cases hi : i = p / 64
  · subst hi
    rw [if_pos rfl]
    by_cases hz : b.row (p / 64) &&& ~~~(1#64 <<< (p % 64)) = 0
    · by_cases hlt : p / 64 < 64
      · simp [hz]
      · simp [hlt, hz]
    · rw [if_neg hz, h.top]
      refine ⟨fun _ => hz, fun hne hrz => hne ?_⟩
      rw [hrz]
      simp
  · rw [if_neg hi, ← h.top]
    split
    · rw [BitVec.getLsbD_and, BitVec.getLsbD_not]
      by_cases hlt : i < 64
      · by_cases hp : p / 64 < 64
        · rw [getLsbD_bit hp]
          simp [hlt, hi]
        · have hz : 1#64 <<< (p / 64) = 0#64 := BitVec.shiftLeft_eq_zero (Nat.le_of_not_lt hp)
          simp [hlt, hz]
      · simp [BitVec.getLsbD_of_ge _ _ (Nat.le_of_not_lt hlt)]
    · rfl

/-- Taking out what was put in restores the bitmap. -/
theorem Holds.remove_insert (hp : p < 64 * 64) (hS : ¬S p) : (b.insert p).remove p = b := by
  refine Holds.unique ((h.insert hp).remove p) ⟨fun q => ?_, h.top⟩
  rw [h.mem]
  constructor
  · intro hq
    exact ⟨fun he => hS (he ▸ hq), Or.inr hq⟩
  · rintro ⟨hne, hq⟩
    exact hq.resolve_left hne

/-- **The empty set.** -/
theorem Holds.summary_eq_zero : b.summary = 0 ↔ ∀ q, ¬S q := by
  constructor
  · intro hz q hq
    have htop := (h.top (q / 64)).2 (by
      intro hr
      have hm := (h.mem q).2 hq
      rw [hr] at hm
      simp at hm)
    rw [hz] at htop
    simp at htop
  · intro hno
    by_contra hne
    obtain ⟨j, _, hj⟩ := (h.row_ne_zero _).1 ((h.top _).1 (getLsbD_highestBit hne))
    exact hno _ hj

/-- **The largest number.** -/
theorem Holds.highest_eq (hp : S p) (hle : ∀ q, S q → q ≤ p) : b.highest = p := by
  have hbit := (h.mem p).2 hp
  have hrow : b.row (p / 64) ≠ 0 := by
    intro hz
    rw [hz] at hbit
    simp at hbit
  have hsum : highestBit b.summary = p / 64 := by
    refine highestBit_eq ((h.top _).2 hrow) fun j hj => ?_
    obtain ⟨k, _, hk⟩ := (h.row_ne_zero j).1 ((h.top j).1 hj)
    have := hle _ hk
    omega
  have hlow : highestBit (b.row (p / 64)) = p % 64 := by
    refine highestBit_eq hbit fun j hj => ?_
    obtain ⟨hlt, hj⟩ := (h.row_bit _ j).1 hj
    have := hle _ hj
    omega
  unfold highest
  rw [hsum]
  omega

/-- The largest number is in the set and nothing in the set is larger. -/
theorem Holds.highest_spec (hne : b.summary ≠ 0) : S b.highest ∧ ∀ q, S q → q ≤ b.highest := by
  have hrow := (h.top _).1 (getLsbD_highestBit hne)
  obtain ⟨hlt, hmem⟩ := (h.row_bit _ _).1 (getLsbD_highestBit hrow)
  refine ⟨hmem, fun q hq => ?_⟩
  have hbit := (h.mem q).2 hq
  have hqrow : b.row (q / 64) ≠ 0 := by
    intro hz
    rw [hz] at hbit
    simp at hbit
  have htop := le_highestBit ((h.top _).2 hqrow)
  unfold highest
  by_cases heq : q / 64 = highestBit b.summary
  · have hlow : q % 64 ≤ highestBit (b.row (q / 64)) := le_highestBit hbit
    rw [heq] at hlow
    omega
  · omega

end Bitmap

end SeL4Kernel
