import Mathlib.Algebra.Group.Nat.Defs
import Mathlib.Data.List.Basic

/-!
# Time spent in a window

A run on a timeline is a list of half-open intervals in order (`InOrder`), and
`spent l a b` is the time it covers inside the window from `a` to `b`. The two
facts that arguments about windows need are that a window holds no more time
than its length (`spent_le`), and that a longer window adds no more than it is
longer (`spent_extend`).
-/

namespace SeL4Kernel

/-- The times from `start` on and before `stop`. -/
structure Span where
  start : Nat
  stop : Nat
  deriving DecidableEq, Repr

namespace Span

/-- The length of the part of an interval that lies in the window. -/
def overlap (i : Span) (a b : Nat) : Nat := min i.stop b - max i.start a

/-- The time that the intervals cover in the window. -/
def spent : List Span → Nat → Nat → Nat
  | [], _, _ => 0
  | i :: l, a, b => i.overlap a b + spent l a b

/-- Spans that follow each other from `t` on. -/
def InOrder : Nat → List Span → Prop
  | _, [] => True
  | t, i :: l => t ≤ i.start ∧ i.start ≤ i.stop ∧ InOrder i.stop l

instance decidableInOrder : ∀ (t : Nat) (l : List Span), Decidable (InOrder t l)
  | _, [] => inferInstanceAs (Decidable True)
  | t, i :: l =>
    have := decidableInOrder i.stop l
    inferInstanceAs (Decidable (t ≤ i.start ∧ i.start ≤ i.stop ∧ InOrder i.stop l))

variable {l : List Span} {t a b : Nat}

theorem spent_le (h : InOrder t l) : spent l a b ≤ b - max a t := by
  induction l generalizing t with
  | nil => exact Nat.zero_le _
  | cons i l ih =>
    obtain ⟨h1, h2, h3⟩ := h
    have := ih h3
    simp only [spent, overlap]
    omega

/-- Nothing is covered before the first interval, so it does not matter how early
a window opens. -/
theorem spent_congr {c : Nat} (h : InOrder t l) (ha : a ≤ t) (hc : c ≤ t) :
    spent l a b = spent l c b := by
  induction l generalizing t with
  | nil => rfl
  | cons i l ih =>
    obtain ⟨h1, h2, h3⟩ := h
    have := ih h3 (by omega) (by omega)
    simp only [spent, overlap]
    omega

theorem spent_mono {b' : Nat} (hb : b ≤ b') : spent l a b ≤ spent l a b' := by
  induction l with
  | nil => exact Nat.le_refl _
  | cons i l ih =>
    simp only [spent, overlap]
    omega

theorem spent_extend {d : Nat} (h : InOrder t l) : spent l a (b + d) ≤ spent l a b + d := by
  induction l generalizing t with
  | nil => exact Nat.zero_le _
  | cons i l ih =>
    obtain ⟨h1, h2, h3⟩ := h
    simp only [spent, overlap]
    by_cases hb : i.stop ≤ b
    · have := ih h3
      omega
    · have := spent_le (a := a) (b := b + d) h3
      omega

end Span

end SeL4Kernel
