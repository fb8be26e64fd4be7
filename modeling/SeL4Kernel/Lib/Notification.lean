import Mathlib.Algebra.Group.Nat.Defs
import Mathlib.Data.Finset.Basic

/-!
# Binary notifications

A notification has one token or threads that wait for it, never both. A signal goes to one of
the threads that wait (which one is left open: it is the first in a queue that may be ordered by
priority), and sets the token when there is none.
-/

namespace SeL4Kernel

variable {Thread : Type*} [DecidableEq Thread]

/-- The token, and the threads that wait. -/
structure Notification (Thread : Type*) where
  token : Bool
  waiting : Finset Thread

namespace Notification

variable {n n' : Notification Thread} {t u : Thread}

/-- A token that is there goes to nobody else. -/
def Valid (n : Notification Thread) : Prop := n.token = true → n.waiting = ∅

/-- `t` takes the token. -/
def take (n : Notification Thread) : Notification Thread := { n with token := false }

/-- `t` waits, as there is no token. -/
def enqueue (n : Notification Thread) (t : Thread) : Notification Thread :=
  { n with waiting := insert t n.waiting }

/-- A signal, and the thread that it wakes. -/
inductive Signal (n : Notification Thread) : Option Thread → Notification Thread → Prop where
  | wake (u : Thread) : u ∈ n.waiting → Signal n (some u) { n with waiting := n.waiting.erase u }
  | set : n.waiting = ∅ → Signal n none { n with token := true }

theorem Valid.enqueue (htoken : n.token = false) : (n.enqueue t).Valid := by
  intro hc
  have hc : n.token = true := hc
  rw [htoken] at hc
  cases hc

theorem Valid.signal (h : n.Valid) {woken : Option Thread} (hsig : Signal n woken n') :
    n'.Valid := by
  cases hsig with
  | wake u hu =>
    intro htoken
    rw [h htoken] at hu
    exact absurd hu (Finset.notMem_empty u)
  | set hempty => exact fun _ => hempty

/-! ### The threads at a place -/

section Places

open Function

variable {Place : Type*} {f : Thread → Place} {b p : Place} (h : ∀ u, u ∈ n.waiting ↔ f u = b)

include h

/-- A thread that is not at the place of those that wait, before and after. -/
theorem mem_waiting_update (ht : f t ≠ b) (hp : p ≠ b) (u : Thread) :
    u ∈ n.waiting ↔ update f t p u = b := by
  rw [h]
  by_cases hu : u = t
  · rw [hu, update_self]
    exact iff_of_false ht hp
  · rw [update_of_ne hu]

theorem mem_waiting_enqueue (u : Thread) : u ∈ (n.enqueue t).waiting ↔ update f t b u = b := by
  unfold enqueue
  rw [Finset.mem_insert, h]
  by_cases hu : u = t
  · rw [hu, update_self]
    exact iff_of_true (.inl rfl) rfl
  · rw [update_of_ne hu, or_iff_right hu]

theorem mem_waiting_erase (hp : p ≠ b) (u : Thread) :
    u ∈ n.waiting.erase t ↔ update f t p u = b := by
  rw [Finset.mem_erase, h]
  by_cases hu : u = t
  · rw [hu, update_self]
    exact iff_of_false (fun hc => hc.1 rfl) hp
  · rw [update_of_ne hu, and_iff_right hu]

end Places

end Notification

end SeL4Kernel
