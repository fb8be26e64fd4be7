import Mathlib.Algebra.Group.Nat.Defs
import Mathlib.Data.Finset.Card

/-!
# Circular lists in order

A successor function on a finite set of linearly ordered elements is a circle when it leads
from each element to the next larger one, and from the largest to the smallest. Elements
are inserted and removed by changing the function at one or two places, and a walk along
the circle comes to every gap and to every element.
-/

namespace SeL4Kernel

open Function Finset

variable {α : Type*} [LinearOrder α] {a b x y : α} {s : Finset α} {next : α → α}

/-- On the way up from `a`, and from the largest element on to the smallest, `x` comes
before `b`. -/
def Between (a x b : α) : Prop := a < x ∧ x < b ∨ b ≤ a ∧ (a < x ∨ x < b)

instance (a x b : α) : Decidable (Between a x b) := by
  unfold Between
  infer_instance

/-- `next` goes once around `s`. -/
structure Circle (s : Finset α) (next : α → α) : Prop where
  mem : ∀ a ∈ s, next a ∈ s
  gap : ∀ a ∈ s, ∀ x ∈ s, ¬Between a x (next a)

namespace Circle

theorem congr (h : Circle s next) {next' : α → α} (heq : ∀ a ∈ s, next' a = next a) :
    Circle s next' := by
  constructor
  · intro a ha
    rw [heq a ha]
    exact h.mem a ha
  · intro a ha
    rw [heq a ha]
    exact h.gap a ha

theorem single (ha : next a = a) : Circle {a} next := by
  constructor
  · intro b hb
    rw [mem_singleton] at hb ⊢
    rw [hb, ha]
  · intro b hb x hx
    unfold Between
    grind

variable (h : Circle s next)

include h

/-- An element that leads to itself is alone. -/
theorem eq_of_next_eq (ha : a ∈ s) (hself : next a = a) (hx : x ∈ s) : x = a := by
  have hgap := h.gap a ha x hx
  unfold Between at hgap
  grind

/-- No two elements lead to the same one. -/
theorem next_inj (ha : a ∈ s) (hb : b ∈ s) (heq : next a = next b) : a = b := by
  have h1 := h.gap a ha b hb
  have h2 := h.gap b hb a ha
  unfold Between at h1 h2
  grind

/-- A new element is linked in between its neighbours. -/
theorem insert (ha : a ∈ s) (hx : x ∉ s) (hbetween : Between a x (next a)) :
    Circle (insert x s) (update (update next x (next a)) a x) := by
  have hxa : x ≠ a := fun hc => hx (hc ▸ ha)
  have hself : update (update next x (next a)) a x a = x := update_self _ _ _
  have hnew : update (update next x (next a)) a x x = next a := by
    rw [update_of_ne hxa, update_self]
  have hold : ∀ b ∈ s, b ≠ a →
      update (update next x (next a)) a x b = next b := by
    intro b hb hba
    rw [update_of_ne hba, update_of_ne]
    exact fun hc => hx (hc ▸ hb)
  constructor
  · intro b hb
    rcases mem_insert.1 hb with rfl | hb
    · rw [hnew]
      exact mem_insert_of_mem (h.mem a ha)
    · by_cases hba : b = a
      · rw [hba, hself]
        exact mem_insert_self x s
      · rw [hold b hb hba]
        exact mem_insert_of_mem (h.mem b hb)
  · intro b hb y hy
    have hgap := h.gap a ha
    have hnext := h.mem a ha
    unfold Between at hbetween hgap ⊢
    rcases mem_insert.1 hb with rfl | hbs
    · rcases mem_insert.1 hy with rfl | hy
      · grind
      · grind
    · by_cases hba : b = a
      · rcases mem_insert.1 hy with rfl | hy
        · grind
        · grind
      · rw [hold b hbs hba]
        rcases mem_insert.1 hy with rfl | hy
        · have h1 := h.gap b hbs a ha
          have h2 := h.gap b hbs (next a) hnext
          unfold Between at h1 h2
          grind
        · exact h.gap b hbs y hy

/-- The element behind `a` is left out. -/
theorem erase (ha : a ∈ s) (hne : next a ≠ a) :
    Circle (s.erase (next a)) (update next a (next (next a))) := by
  have hn := h.mem a ha
  have hself : update next a (next (next a)) a = next (next a) := update_self _ _ _
  constructor
  · intro b hb
    rw [mem_erase] at hb ⊢
    by_cases hba : b = a
    · rw [hba, hself]
      refine ⟨?_, h.mem _ hn⟩
      intro hc
      exact hne (h.eq_of_next_eq hn hc ha).symm
    · rw [update_of_ne hba]
      exact ⟨fun hc => hba (h.next_inj hb.2 ha hc), h.mem b hb.2⟩
  · intro b hb y hy
    rw [mem_erase] at hb hy
    by_cases hba : b = a
    · have h1 := h.gap a ha y hy.2
      have h2 := h.gap (next a) hn y hy.2
      unfold Between at h1 h2 ⊢
      grind
    · rw [update_of_ne hba]
      exact h.gap b hb.2 y hy.2

omit h

/-- How much of the circle is still ahead of `a` before `x` is passed. -/
def ahead (s : Finset α) (a x : α) : ℕ := (s.filter fun y => Between a y x).card

/-- A step that does not pass `x` comes closer to it. -/
theorem ahead_next_lt (h : Circle s next) (ha : a ∈ s) (hx : ¬Between a x (next a))
    (hne : next a ≠ x) : ahead s (next a) x < ahead s a x := by
  have hn := h.mem a ha
  apply card_lt_card
  constructor
  · intro y hy
    rw [mem_filter] at hy ⊢
    refine ⟨hy.1, ?_⟩
    have hbetween := hy.2
    unfold Between at hbetween hx ⊢
    grind
  · intro hsub
    have hmem : next a ∈ s.filter fun y => Between a y x := by
      rw [mem_filter]
      refine ⟨hn, ?_⟩
      unfold Between at hx ⊢
      grind
    have hcon := (mem_filter.1 (hsub hmem)).2
    unfold Between at hcon hx
    grind

end Circle

end SeL4Kernel
