import Mathlib.Algebra.Group.Nat.Defs
import Mathlib.Data.List.Basic

/-!
# Bytes scattered over addresses

`scatter f as bs` writes the `i`-th of the values `bs` at the `i`-th of the
addresses `as`, in order and for as long as there is one of each. A copy through
a list of buffers is a scatter over the addresses of the buffers laid end to end,
and it is done piece by piece: `scatter_append`.
-/

namespace SeL4Kernel

universe u v

variable {α : Type u} {β : Type v} [DecidableEq α] {f : α → β} {as : List α} {bs : List β}

/-- Write the values `bs` at the addresses `as`. -/
def scatter (f : α → β) : List α → List β → α → β
  | a :: as, b :: bs => scatter (Function.update f a b) as bs
  | _, _ => f

@[simp] theorem scatter_nil_left : scatter f [] bs = f := by
  rw [scatter]
  intro a as b bs h
  cases h

@[simp] theorem scatter_nil_right : scatter f as [] = f := by
  cases as with
  | nil => rfl
  | cons a as => rfl

/-- A scatter is done in two pieces. -/
theorem scatter_append {as' : List α} {bs' : List β} (h : as.length = bs.length) :
    scatter f (as ++ as') (bs ++ bs') = scatter (scatter f as bs) as' bs' := by
  induction as generalizing f bs with
  | nil =>
    obtain rfl : bs = [] := List.length_eq_zero_iff.mp h.symm
    simp
  | cons a as ih =>
    cases bs with
    | nil => cases h
    | cons b bs => exact ih (by simpa using h)

/-- Nothing is written elsewhere. -/
theorem scatter_of_notMem {a : α} (h : a ∉ as) : scatter f as bs a = f a := by
  induction as generalizing f bs with
  | nil => simp
  | cons a' as ih =>
    cases bs with
    | nil => simp
    | cons b bs =>
      obtain ⟨hne, hnot⟩ : a ≠ a' ∧ a ∉ as := by simpa using h
      rw [scatter, ih hnot, Function.update_of_ne hne]

/-- What is written at addresses that differ from each other is read back. -/
theorem map_scatter (h : as.Nodup) (hlen : as.length = bs.length) :
    as.map (scatter f as bs) = bs := by
  induction as generalizing f bs with
  | nil => exact (List.length_eq_zero_iff.mp hlen.symm).symm
  | cons a as ih =>
    cases bs with
    | nil => cases hlen
    | cons b bs =>
      obtain ⟨hnot, hnodup⟩ := List.nodup_cons.mp h
      rw [List.map_cons, scatter, ih hnodup (by simpa using hlen), scatter_of_notMem hnot,
        Function.update_self]

/-- Addresses that are not written to read as before. -/
theorem map_scatter_of_disjoint {l : List α} (h : ∀ a ∈ l, a ∉ as) :
    l.map (scatter f as bs) = l.map f :=
  List.map_congr_left fun a ha => scatter_of_notMem (h a ha)

end SeL4Kernel
