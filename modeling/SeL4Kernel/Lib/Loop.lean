import Mathlib.Algebra.Group.Nat.Defs
import Mathlib.Tactic.Common

/-!
# While loops

`whileLoop cond body n s` runs a loop of at most `n` rounds and is `none` when
the loop is still going after them, so a result always comes from a loop that
left through its own condition.

* `whileLoop_inv`: what a round keeps holds at the exit.
* `whileLoop_exists`: a measure that falls in every round gives a result.
* `whileLoop_sim`: two loops whose rounds match give matching results.

`doLoop stuck body n s` is the loop whose rounds decide for themselves: a round
goes on in a new state, leaves with a result or fails, and a loop that is still
going after `n` rounds fails with `stuck`.

* `doLoop_mono`: more rounds, and rounds that fail less, keep the result.
* `doLoop_returns`: a measure that falls in every round gives a result.
-/

namespace SeL4Kernel

universe u v

variable {σ : Type u} {τ : Type v} {cond : σ → Bool} {body : σ → σ} {n : Nat} {s : σ} {I : σ → Prop}

/-- Run `body` while `cond` holds, for at most `n` rounds. -/
def whileLoop (cond : σ → Bool) (body : σ → σ) : Nat → σ → Option σ
  | 0, s => if cond s then none else some s
  | n + 1, s => if cond s then whileLoop cond body n (body s) else some s

theorem whileLoop_done (h : cond s = false) : whileLoop cond body n s = some s := by
  cases n <;> simp [whileLoop, h]

theorem whileLoop_round (h : cond s = true) :
    whileLoop cond body (n + 1) s = whileLoop cond body n (body s) := by
  simp [whileLoop, h]

/-- **Loop invariant.** The condition is false where the loop stops. -/
theorem whileLoop_inv (hstep : ∀ s, I s → cond s = true → I (body s)) :
    ∀ {n : Nat} {s t : σ}, I s → whileLoop cond body n s = some t → I t ∧ cond t = false := by
  intro n
  induction n with
  | zero =>
    intro s t hs h
    cases hc : cond s with
    | true => simp [whileLoop, hc] at h
    | false => simp [whileLoop, hc] at h; subst h; exact ⟨hs, hc⟩
  | succ n ih =>
    intro s t hs h
    cases hc : cond s with
    | true => rw [whileLoop_round hc] at h; exact ih (hstep s hs hc) h
    | false => rw [whileLoop_done hc] at h; cases h; exact ⟨hs, hc⟩

/-- **Termination.** A measure that falls in every round bounds the rounds. -/
theorem whileLoop_exists (m : σ → Nat)
    (hstep : ∀ s, I s → cond s = true → I (body s) ∧ m (body s) < m s) :
    ∀ {n : Nat} {s : σ}, I s → m s ≤ n →
      ∃ t, whileLoop cond body n s = some t ∧ I t ∧ cond t = false := by
  intro n
  induction n with
  | zero =>
    intro s hs hn
    cases hc : cond s with
    | true => have := (hstep s hs hc).2; omega
    | false => exact ⟨s, whileLoop_done hc, hs, hc⟩
  | succ n ih =>
    intro s hs hn
    cases hc : cond s with
    | true =>
      obtain ⟨hI, hm⟩ := hstep s hs hc
      rw [whileLoop_round hc]
      exact ih hI (by omega)
    | false => exact ⟨s, whileLoop_done hc, hs, hc⟩

/-- **Simulation.** Two loops run in step when their conditions agree on
related states and their bodies keep states related. -/
theorem whileLoop_sim {cond' : τ → Bool} {body' : τ → τ} {R : σ → τ → Prop}
    (hcond : ∀ s t, R s t → cond s = cond' t)
    (hbody : ∀ s t, R s t → cond s = true → R (body s) (body' t)) :
    ∀ {n : Nat} {s : σ} {t t' : τ}, R s t → whileLoop cond' body' n t = some t' →
      ∃ s', whileLoop cond body n s = some s' ∧ R s' t' := by
  intro n
  induction n with
  | zero =>
    intro s t t' hR h
    cases hc : cond' t with
    | true => simp [whileLoop, hc] at h
    | false =>
      rw [whileLoop_done hc] at h
      cases h
      exact ⟨s, whileLoop_done (by rw [hcond s t hR, hc]), hR⟩
  | succ n ih =>
    intro s t t' hR h
    cases hc : cond' t with
    | true =>
      have hs : cond s = true := by rw [hcond s t hR, hc]
      rw [whileLoop_round hc] at h
      rw [whileLoop_round hs]
      exact ih (hbody s t hR hs) h
    | false =>
      rw [whileLoop_done hc] at h
      cases h
      exact ⟨s, whileLoop_done (by rw [hcond s t hR, hc]), hR⟩

/-! ### Loops that can fail -/

section DoLoop

universe w

variable {ε : Type w} {α : Type v} {stuck : ε} {round round' : σ → Except ε (σ ⊕ α)}

/-- Run `round` until it leaves the loop, for at most `n` rounds. -/
def doLoop (stuck : ε) (round : σ → Except ε (σ ⊕ α)) : Nat → σ → Except ε α
  | 0, _ => .error stuck
  | n + 1, s =>
    match round s with
    | .error e => .error e
    | .ok (.inl s') => doLoop stuck round n s'
    | .ok (.inr a) => .ok a

theorem doLoop_next {s' : σ} (h : round s = .ok (.inl s')) :
    doLoop stuck round (n + 1) s = doLoop stuck round n s' := by
  simp only [doLoop, h]

theorem doLoop_exit {a : α} (h : round s = .ok (.inr a)) :
    doLoop stuck round (n + 1) s = .ok a := by
  simp only [doLoop, h]

/-- A result stays the result with more rounds and with rounds that succeed
wherever the old ones did. -/
theorem doLoop_mono (hround : ∀ s r, round s = .ok r → round' s = .ok r) :
    ∀ {n m : Nat} {s : σ} {a : α}, n ≤ m → doLoop stuck round n s = .ok a →
      doLoop stuck round' m s = .ok a := by
  intro n
  induction n with
  | zero => intro m s a _ h; simp [doLoop] at h
  | succ n ih =>
    intro m s a hm h
    obtain ⟨m, rfl⟩ : ∃ k, m = k + 1 := ⟨m - 1, by omega⟩
    rcases hr : round s with e | s' | b
    · simp [doLoop, hr] at h
    · rw [doLoop_next hr] at h
      rw [doLoop_next (hround s _ hr)]
      exact ih (by omega) h
    · rw [doLoop_exit hr] at h
      rw [doLoop_exit (hround s _ hr)]
      exact h

/-- **Termination with a result.** `I m s` says that the loop may be in `s` with
at most `m` rounds before the last one. -/
theorem doLoop_returns {I : Nat → σ → Prop} {Q : α → Prop}
    (hround : ∀ m s, I m s → (∃ m' s', m' < m ∧ round s = .ok (.inl s') ∧ I m' s') ∨
      ∃ a, round s = .ok (.inr a) ∧ Q a) :
    ∀ {n m : Nat} {s : σ}, I m s → m < n → ∃ a, doLoop stuck round n s = .ok a ∧ Q a := by
  intro n
  induction n with
  | zero => intro m s _ hn; omega
  | succ n ih =>
    intro m s hs hn
    rcases hround m s hs with ⟨m', s', hm, hr, hI⟩ | ⟨a, hr, hQ⟩
    · rw [doLoop_next hr]
      exact ih hI (by omega)
    · exact ⟨a, doLoop_exit hr, hQ⟩

/-- A loop none of whose rounds leaves it does not return. -/
theorem doLoop_stuck (hround : ∀ s, I s → ∃ s', round s = .ok (.inl s') ∧ I s') :
    ∀ {n : Nat} {s : σ}, I s → doLoop stuck round n s = .error stuck := by
  intro n
  induction n with
  | zero => intro s _; rfl
  | succ n ih =>
    intro s hs
    obtain ⟨s', hr, hI⟩ := hround s hs
    rw [doLoop_next hr]
    exact ih hI

end DoLoop

end SeL4Kernel
