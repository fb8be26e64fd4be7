import Mathlib.Algebra.Group.Nat.Defs
import Mathlib.Order.MinMax
import Mathlib.Data.List.Pairwise
import Mathlib.Tactic.Common

/-!
# Lists of ranges

Half-open ranges of a linear order, in lists that are sorted. `Ordered` allows ranges that are
empty or touch, `Gapped` does not. `minus` takes the ranges of an ordered list out of a range,
and `pieces` out of every range of another list.
-/

namespace SeL4Kernel

open List

/-- The elements from `start` on and before `stop`. -/
structure Range (α : Type*) where
  start : α
  stop : α
  deriving DecidableEq, Repr

namespace Range

variable {α : Type*} [LinearOrder α] {a b r : Range α} {l l' A R : List (Range α)} {x s t : α}

instance : Membership α (Range α) where
  mem r x := r.start ≤ x ∧ x < r.stop

theorem mem_iff : x ∈ r ↔ r.start ≤ x ∧ x < r.stop := Iff.rfl

/-- An element of one of the ranges. -/
def Covered (l : List (Range α)) (x : α) : Prop := ∃ r ∈ l, x ∈ r

@[simp]
theorem covered_nil : ¬Covered [] x := by
  rintro ⟨r, hr, _⟩
  exact absurd hr not_mem_nil

@[simp]
theorem covered_cons : Covered (r :: l) x ↔ x ∈ r ∨ Covered l x := by
  unfold Covered
  simp only [mem_cons, exists_eq_or_imp]

@[simp]
theorem covered_append : Covered (l ++ l') x ↔ Covered l x ∨ Covered l' x := by
  unfold Covered
  simp only [mem_append, or_and_right, exists_or]

/-- No element in common. -/
def Apart (a b : Range α) : Prop := ∀ x, x ∈ a → x ∉ b

/-- Ranges that have an element in common, if neither is empty. -/
def Meets (a b : Range α) : Prop := a.start < b.stop ∧ b.start < a.stop

instance : Decidable (a.Meets b) := inferInstanceAs (Decidable (_ ∧ _))

theorem Apart.symm (h : a.Apart b) : b.Apart a := fun x hx hc => h x hc hx

theorem apart_of_le (h : a.stop ≤ b.start) : a.Apart b := fun _ hx hc =>
  absurd (lt_of_lt_of_le hx.2 (h.trans hc.1)) (lt_irrefl _)

/-- The starts of two ranges that are apart and not empty are on the outside of the other. -/
theorem Apart.le_or_le (h : a.Apart b) (ha : a.start < a.stop) (hb : b.start < b.stop) :
    a.stop ≤ b.start ∨ b.stop ≤ a.start := by
  by_contra hc
  rw [not_or, not_le, not_le] at hc
  rcases le_total a.start b.start with hle | hle
  · exact h b.start ⟨hle, hc.1⟩ ⟨le_refl _, hb⟩
  · exact h a.start ⟨le_refl _, ha⟩ ⟨hle, hc.2⟩

/-- Ranges one after the other; they may be empty, and touch. -/
@[mk_iff]
structure Ordered (l : List (Range α)) : Prop where
  le : ∀ r ∈ l, r.start ≤ r.stop
  order : l.Pairwise fun a b => a.stop ≤ b.start

/-- Ranges one after the other with gaps between them. -/
@[mk_iff]
structure Gapped (l : List (Range α)) : Prop where
  lt : ∀ r ∈ l, r.start < r.stop
  gap : l.Pairwise fun a b => a.stop < b.start

instance : Decidable (Ordered l) := decidable_of_iff _ (ordered_iff l).symm

theorem Ordered.nil : Ordered ([] : List (Range α)) :=
  ⟨fun _ hr => absurd hr not_mem_nil, List.Pairwise.nil⟩

theorem ordered_cons : Ordered (r :: l) ↔
    r.start ≤ r.stop ∧ (∀ b ∈ l, r.stop ≤ b.start) ∧ Ordered l := by
  rw [ordered_iff, ordered_iff, forall_mem_cons, pairwise_cons, and_and_and_comm, and_assoc]

theorem Ordered.pairwise_apart (h : Ordered l) : l.Pairwise Apart := h.order.imp apart_of_le

theorem ordered_append : Ordered (l ++ l') ↔
    Ordered l ∧ Ordered l' ∧ ∀ a ∈ l, ∀ b ∈ l', a.stop ≤ b.start := by
  simp only [ordered_iff, forall_mem_append, pairwise_append]
  tauto

/-- Cutting a hole into one of the ranges. -/
theorem Ordered.hole (h : Ordered (l ++ r :: l')) (hs : r.start ≤ s) (hst : s ≤ t)
    (ht : t ≤ r.stop) : Ordered (l ++ ⟨r.start, s⟩ :: ⟨t, r.stop⟩ :: l') := by
  obtain ⟨hl, hr, hbefore⟩ := ordered_append.1 h
  obtain ⟨_, hafter, hl'⟩ := ordered_cons.1 hr
  refine ordered_append.2 ⟨hl, ordered_cons.2 ⟨hs, ?_, ordered_cons.2 ⟨ht, hafter, hl'⟩⟩, ?_⟩
  · refine forall_mem_cons.2 ⟨hst, ?_⟩
    intro b hb
    exact (hst.trans ht).trans (hafter b hb)
  · intro a ha
    have har := hbefore a ha r mem_cons_self
    refine forall_mem_cons.2 ⟨har, forall_mem_cons.2 ⟨har.trans (hs.trans hst), ?_⟩⟩
    exact fun b hb => hbefore a ha b (mem_cons_of_mem r hb)

theorem covered_hole (hs : r.start ≤ s) (hst : s ≤ t) (ht : t ≤ r.stop) :
    Covered (l ++ ⟨r.start, s⟩ :: ⟨t, r.stop⟩ :: l') x ∨ x ∈ (⟨s, t⟩ : Range α) ↔
      Covered (l ++ r :: l') x := by
  simp only [covered_append, covered_cons, mem_iff]
  grind

/-! ### Taking ranges out of ranges -/

/-- A range, if it is not empty. -/
def clip (r : Range α) : List (Range α) := if r.start < r.stop then [r] else []

theorem covered_clip : Covered r.clip x ↔ x ∈ r := by
  unfold clip
  split
  · rw [covered_cons]
    exact or_iff_left covered_nil
  · rename_i hempty
    refine iff_of_false covered_nil ?_
    rintro ⟨hle, hlt⟩
    exact hempty (lt_of_le_of_lt hle hlt)

theorem clip_eq_nil (h : t ≤ s) : clip ⟨s, t⟩ = [] := if_neg (not_lt.2 h)

theorem clip_eq_self (h : s < t) : clip ⟨s, t⟩ = [⟨s, t⟩] := if_pos h

/-- What is left of a range without the ranges of an ordered list. -/
def minus (a : Range α) : List (Range α) → List (Range α)
  | [] => a.clip
  | r :: R => clip ⟨a.start, min a.stop r.start⟩ ++ minus ⟨max a.start r.stop, a.stop⟩ R

/-- What is left of some ranges. -/
def pieces (A R : List (Range α)) : List (Range α) := A.flatMap fun a => a.minus R

theorem minus_of_le (R : List (Range α)) (h : t ≤ s) : minus ⟨s, t⟩ R = [] := by
  induction R generalizing s with
  | nil => exact clip_eq_nil h
  | cons r R ih =>
    rw [minus, clip_eq_nil (le_trans (min_le_left _ _) h)]
    exact ih (le_trans h (le_max_left _ _))

/-- A range that lies before takes nothing. -/
theorem minus_of_before (hr : r.start ≤ r.stop) (h : r.stop ≤ a.start) :
    a.minus (r :: R) = a.minus R := by
  rw [minus, clip_eq_nil (le_trans (min_le_right _ _) (hr.trans h)), nil_append, max_eq_left h]

/-- A range that lies behind takes nothing. -/
theorem minus_of_after (ha : a.start < a.stop) (hr : r.start ≤ r.stop) (h : a.stop ≤ r.start) :
    a.minus (r :: R) = [a] := by
  rw [minus, min_eq_left h, clip_eq_self ha]
  rw [minus_of_le R (le_trans (h.trans hr) (le_max_right _ _))]
  rfl

theorem minus_of_start (h : r.start ≤ a.start) (hr : a.start < r.stop) :
    a.minus (r :: R) = minus ⟨min a.stop r.stop, a.stop⟩ R := by
  rw [minus, clip_eq_nil (le_trans (min_le_right _ _) h), nil_append, max_eq_right hr.le]
  rcases le_total r.stop a.stop with hle | hle
  · rw [min_eq_right hle]
  · rw [min_eq_left hle, minus_of_le R hle, minus_of_le R (le_refl _)]

theorem minus_of_inside (h : a.start < r.start) (hlt : r.start < a.stop) (hr : r.start ≤ r.stop) :
    a.minus (r :: R) = ⟨a.start, r.start⟩ :: minus ⟨r.stop, a.stop⟩ R := by
  rw [minus, min_eq_right hlt.le, max_eq_right (h.le.trans hr), clip_eq_self h]
  rfl

theorem covered_minus (hR : Ordered R) : Covered (a.minus R) x ↔ x ∈ a ∧ ¬Covered R x := by
  induction R generalizing a with
  | nil =>
    rw [minus, covered_clip]
    exact (and_iff_left covered_nil).symm
  | cons r R ih =>
    obtain ⟨hr, hbefore, hR⟩ := ordered_cons.1 hR
    have hafter : Covered R x → r.stop ≤ x := by
      rintro ⟨b, hb, hx⟩
      exact (hbefore b hb).trans hx.1
    rw [minus, covered_append, covered_clip, ih hR, covered_cons]
    simp only [mem_iff]
    grind

/-! ### The pieces of a list -/

@[simp]
theorem pieces_cons : pieces (a :: A) R = a.minus R ++ pieces A R := rfl

theorem covered_pieces (hR : Ordered R) : Covered (pieces A R) x ↔ Covered A x ∧ ¬Covered R x := by
  induction A with
  | nil => exact iff_of_false covered_nil fun h => covered_nil h.1
  | cons a A ih =>
    rw [pieces_cons, covered_append, covered_minus hR, covered_cons]
    tauto

/-- A range that lies before all of them takes nothing. -/
theorem pieces_of_before (hr : r.start ≤ r.stop) (h : ∀ a ∈ A, r.stop ≤ a.start) :
    pieces A (r :: R) = pieces A R := by
  induction A with
  | nil => rfl
  | cons a A ih =>
    rw [pieces_cons, pieces_cons, minus_of_before hr (h a mem_cons_self),
      ih fun b hb => h b (mem_cons_of_mem a hb)]

end Range

end SeL4Kernel
