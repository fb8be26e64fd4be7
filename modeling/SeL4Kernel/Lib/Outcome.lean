import Mathlib.Algebra.Group.Nat.Defs
import Mathlib.Tactic.Common

/-!
# Outcomes of computations that can fail

`Ends A Q x` says how a computation `x : Except ε α` may end: in a value with `Q`,
or in an error that `A` allows. A property of a whole computation is assembled
from properties of its parts by the rules below, one for each way in which
computations are put together.

* `Ends.bind`: one computation after another.
* `Ends.mono`: a weaker postcondition.
* `Ends.ite`: a choice.

`OkIff R Q x` says when it returns: `x` has a value if and only if `R`, and then one with `Q`. The
rules are the same.
-/

namespace SeL4Kernel

universe u v w

variable {ε : Type u} {α β : Type v} {A : ε → Prop} {Q R : α → Prop} {x : Except ε α}

/-- `x` ends in a value with `Q` or in an error with `A`. -/
def Ends (A : ε → Prop) (Q : α → Prop) : Except ε α → Prop
  | .ok a => Q a
  | .error e => A e

@[simp] theorem ends_ok {a : α} : Ends A Q (.ok a) ↔ Q a := Iff.rfl

/-- The error in which `x` ends, if it does. -/
def errorOf : Except ε α → Option ε
  | .ok _ => none
  | .error e => some e

variable (h : Ends A Q x)

include h

/-- A computation that ends well and returns has the postcondition. -/
theorem Ends.of_ok {a : α} (hx : x = .ok a) : Q a := by
  subst hx
  exact h

/-- A computation that ends well does not end in an error that is not allowed. -/
theorem Ends.ne_error {e : ε} (he : ¬A e) : x ≠ .error e := by
  intro hx
  subst hx
  exact he h

theorem Ends.mono (hQ : ∀ a, Q a → R a) : Ends A R x := by
  cases x with
  | ok a => exact hQ a h
  | error e => exact h

theorem Ends.and (h' : Ends (fun _ => True) R x) : Ends A (fun a => Q a ∧ R a) x := by
  cases x with
  | ok a => exact ⟨h, h'⟩
  | error e => exact h

theorem Ends.weaken : Ends (fun _ => True) Q x := by
  cases x with
  | ok a => exact h
  | error e => trivial

/-- **Sequencing.** -/
theorem Ends.bind {P : β → Prop} {f : α → Except ε β} (hf : ∀ a, Q a → Ends A P (f a)) :
    Ends A P (x >>= f) := by
  cases x with
  | ok a => exact hf a h
  | error e => exact h

omit h

theorem Ends.ite {c : Prop} [Decidable c] {y : Except ε α} (hx : c → Ends A Q x)
    (hy : ¬c → Ends A Q y) : Ends A Q (if c then x else y) := by
  split
  next hc => exact hx hc
  next hc => exact hy hc

theorem ok_bind {β : Type w} {α : Type w} (a : α) (f : α → Except ε β) :
    (Except.ok a >>= f) = f a := rfl

/-- A computation whose possible value is known step by step. -/
theorem bind_eq_ok {β : Type w} {α : Type w} {x : Except ε α} {f : α → Except ε β} {b : β} :
    x >>= f = .ok b ↔ ∃ a, x = .ok a ∧ f a = .ok b := by
  cases x with
  | ok a => simp [Bind.bind, Except.bind]
  | error e => simp [Bind.bind, Except.bind]

/-- A result stays the result when the parts return wherever they did. -/
theorem bind_ok_mono {β : Type w} {α : Type w} {x y : Except ε α} {f g : α → Except ε β} {b : β}
    (hx : ∀ a, x = .ok a → y = .ok a) (hf : ∀ a, f a = .ok b → g a = .ok b)
    (h : x >>= f = .ok b) : y >>= g = .ok b := by
  obtain ⟨a, ha, hb⟩ := bind_eq_ok.mp h
  exact bind_eq_ok.mpr ⟨a, hx a ha, hf a hb⟩

/-! ### When a computation returns -/

/-- `x` ends in a value if and only if `R`, and then in a value with `Q`. -/
def OkIff (R : Prop) (Q : α → Prop) : Except ε α → Prop
  | .ok a => R ∧ Q a
  | .error _ => ¬R

variable {R' S : Prop}

theorem OkIff.congr (h : OkIff R' Q x) (hiff : R' ↔ S) (hQ : R' → ∀ a, Q a → R a) :
    OkIff S R x := by
  cases x with
  | ok a => exact ⟨hiff.mp h.1, hQ h.1 a h.2⟩
  | error e => exact fun hs => h (hiff.mpr hs)

theorem OkIff.of_iff (hiff : R' ↔ S) (h : OkIff R' Q x) : OkIff S Q x :=
  h.congr hiff fun _ _ => id

theorem OkIff.bind {P : β → Prop} {f : α → Except ε β} (h : OkIff R' Q x)
    (hf : ∀ a, Q a → OkIff S P (f a)) : OkIff (R' ∧ S) P (x >>= f) := by
  cases x with
  | ok a => exact (hf a h.2).of_iff ⟨fun hs => ⟨h.1, hs⟩, And.right⟩
  | error e => exact fun hrs => h hrs.1

/-- A postcondition that need not hold of every value. -/
theorem OkIff.bind_iff {P : β → Prop} {f : α → Except ε β} (h : OkIff R' Q x)
    (hf : ∀ a, Q a → ((∃ b, f a = .ok b ∧ P b) ↔ S)) :
    (∃ b, x >>= f = .ok b ∧ P b) ↔ R' ∧ S := by
  cases x with
  | ok a => exact (hf a h.2).trans (and_iff_right h.1).symm
  | error e => exact iff_of_false (fun ⟨_, hb, _⟩ => nomatch hb) fun hrs => h hrs.1

end SeL4Kernel
