import Mathlib.Data.List.Nodup
import Mathlib.Logic.Function.Basic

/-!
# Singly linked lists

Nodes with a pointer to the next one: `Path next p l q` says that following the pointers from `p`
leads through the nodes `l` to `q`. A node is unlinked by changing the pointer that leads to it,
which is the one of its predecessor or the head.
-/

namespace SeL4Kernel

open Function List

variable {α : Type*} {next next' : α → Option α} {p q : Option α} {l m : List α} {a b : α}

/-- Following `next` from `p` leads through the nodes `l` to `q`. -/
def Path (next : α → Option α) : Option α → List α → Option α → Prop
  | p, [], q => p = q
  | p, a :: l, q => p = some a ∧ Path next (next a) l q

@[simp] theorem path_nil : Path next p [] q ↔ p = q := Iff.rfl

@[simp] theorem path_cons : Path next p (a :: l) q ↔ p = some a ∧ Path next (next a) l q := Iff.rfl

theorem path_append : Path next p (l ++ m) q ↔ ∃ r, Path next p l r ∧ Path next r m q := by
  induction l generalizing p with
  | nil => simp
  | cons a l ih => simp [ih, and_assoc]

theorem path_concat : Path next p (l ++ [a]) q ↔ Path next p l (some a) ∧ next a = q := by
  rw [path_append]
  constructor
  · rintro ⟨r, hl, rfl, hq⟩
    exact ⟨hl, hq⟩
  · rintro ⟨hl, hq⟩
    exact ⟨some a, hl, rfl, hq⟩

theorem Path.congr (h : Path next p l q) (heq : ∀ a ∈ l, next' a = next a) :
    Path next' p l q := by
  induction l generalizing p with
  | nil => exact h
  | cons a l ih =>
    refine ⟨h.1, ?_⟩
    rw [heq a mem_cons_self]
    exact ih h.2 fun b hb => heq b (mem_cons_of_mem a hb)

variable [DecidableEq α]

/-- A node that is not on the path is changed. -/
theorem Path.update (h : Path next p l q) (ha : a ∉ l) {r : Option α} :
    Path (Function.update next a r) p l q := by
  refine h.congr fun b hb => update_of_ne ?_ ..
  rintro rfl
  exact ha hb

/-- The pointer to the node `a` is replaced by the one that `a` has: the head of the list if there
is no predecessor, and else the pointer of the predecessor. -/
def unlink (head : Option α) (next : α → Option α) (prev : Option α) (a : α) :
    Option α × (α → Option α) :=
  match prev with
  | none => (next a, next)
  | some b => (head, Function.update next b (next a))

/-- Unlinking the node behind its predecessor takes it out of the path. -/
theorem Path.unlink (h : Path next p (l ++ a :: m) q) (hnodup : (l ++ a :: m).Nodup) :
    Path (SeL4Kernel.unlink p next l.getLast? a).2 (SeL4Kernel.unlink p next l.getLast? a).1
      (l ++ m) q := by
  obtain ⟨r, hl, rfl, hm⟩ := path_append.mp h
  rcases eq_nil_or_concat l with rfl | ⟨l, b, rfl⟩
  · exact hm
  rw [concat_eq_append] at hl hnodup ⊢
  rw [getLast?_concat, append_assoc]
  obtain ⟨hl, -⟩ := path_concat.mp hl
  rw [append_assoc, singleton_append] at hnodup
  obtain ⟨-, hnodup, hapart⟩ := nodup_append.mp hnodup
  have hb : b ∉ l := fun hb => hapart b hb b mem_cons_self rfl
  have hbm : b ∉ m := fun hb => (nodup_cons.mp hnodup).1 (mem_cons_of_mem a hb)
  refine path_append.mpr ⟨some b, hl.update hb, rfl, ?_⟩
  dsimp only [SeL4Kernel.unlink]
  rw [update_self]
  exact hm.update hbm

end SeL4Kernel
