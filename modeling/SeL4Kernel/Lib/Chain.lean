import Mathlib.Tactic.Linarith
import SeL4Kernel.Lib.Paired

/-!
# Doubly linked chains

Nodes with a pointer to the next one and a pointer to the previous one: `Linked` says
that the two point at each other and that no chain closes on itself. The second part is
witnessed by a rank that grows along the chains. Nodes can be put into a chain, and all nodes
can be renamed:

* `Linked.insert`: an isolated node goes behind another node.
* `Linked.relabel`: a permutation of the nodes.

Where the pointers of the new chains come from is left open: each rule takes a
description of them node by node.
-/

namespace SeL4Kernel

universe u

variable {S : Type u}

/-- Pointers to the next and the previous node agree, and follow a strict order. -/
structure Linked (next prev : S → Option S) : Prop where
  paired : Paired next prev
  ranked : ∃ rank : S → ℚ, ∀ a b, next a = some b → rank a < rank b

namespace Linked

variable {next prev next' prev' : S → Option S} (h : Linked next prev)

include h

theorem ne_of_next {a b : S} (hab : next a = some b) : a ≠ b := by
  rintro rfl
  obtain ⟨rank, hrank⟩ := h.ranked
  exact lt_irrefl _ (hrank a a hab)

theorem relabel (e : S ≃ S) (hnext : ∀ a, next' (e a) = (next a).map e)
    (hprev : ∀ a, prev' (e a) = (prev a).map e) : Linked next' prev' := by
  have hmap : ∀ (o : Option S) (b : S), o.map e = some (e b) ↔ o = some b := by
    intro o b
    cases o with
    | none => simp
    | some a => simp
  constructor
  · intro a b
    obtain ⟨a, rfl⟩ := e.surjective a
    obtain ⟨b, rfl⟩ := e.surjective b
    rw [hnext, hprev, hmap, hmap]
    exact h.paired a b
  · obtain ⟨rank, hrank⟩ := h.ranked
    refine ⟨rank ∘ e.symm, ?_⟩
    intro a b hab
    obtain ⟨a, rfl⟩ := e.surjective a
    obtain ⟨b, rfl⟩ := e.surjective b
    rw [hnext, hmap] at hab
    simpa using hrank a b hab

variable [DecidableEq S]

theorem insert {a x : S} (hxa : x ≠ a) (hxn : next x = none) (hxp : prev x = none)
    (hnext : ∀ s, next' s = if s = a then some x else if s = x then next a else next s)
    (hprev : ∀ s, prev' s = if s = x then some a else if next a = some s then some x else prev s) :
    Linked next' prev' := by
  have hfree : ∀ s, next s ≠ some x := fun s hs => by
    rw [(h.paired s x).1 hs] at hxp
    cases hxp
  have hfree' : ∀ s, prev s ≠ some x := fun s hs => by
    rw [(h.paired x s).2 hs] at hxn
    cases hxn
  constructor
  · intro s t
    have hst := h.paired s t
    rw [hnext, hprev]
    by_cases hsa : s = a
    · subst hsa
      by_cases htx : t = x
      · subst htx
        simp
      · rw [if_pos rfl, if_neg htx]
        split
        · simp [Ne.symm htx, hxa]
        · rename_i hnt
          simp [Ne.symm htx, ← hst, hnt]
    · rw [if_neg hsa]
      by_cases hsx : s = x
      · subst hsx
        rw [if_pos rfl]
        by_cases hts : t = s
        · subst hts
          simp [hfree a, Ne.symm hxa]
        rw [if_neg hts]
        split
        · rename_i hnt
          simp [hnt]
        · rename_i hnt
          simp [hnt, hfree' t]
      · rw [if_neg hsx]
        by_cases htx : t = x
        · subst htx
          simp [hfree s, Ne.symm hsa]
        rw [if_neg htx]
        split
        · rename_i hnt
          have hne : next s ≠ some t := fun hs => hsa (h.paired.eq_of_eq hs hnt)
          simp [hne, Ne.symm hsx]
        · exact hst
  · obtain ⟨rank, hrank⟩ := h.ranked
    -- the new node goes half way to the next one
    let place : ℚ := (next a).elim (rank a + 1) fun n => (rank a + rank n) / 2
    have hplace : rank a < place ∧ ∀ n, next a = some n → place < rank n := by
      cases hn : next a with
      | none =>
        have hp : place = rank a + 1 := by simp only [place, hn, Option.elim_none]
        exact ⟨by rw [hp]; linarith, fun n hc => by cases hc⟩
      | some n =>
        have hp : place = (rank a + rank n) / 2 := by simp only [place, hn, Option.elim_some]
        have hlt := hrank a n hn
        refine ⟨by rw [hp]; linarith, ?_⟩
        intro m hm
        cases hm
        linarith
    refine ⟨Function.update rank x place, ?_⟩
    intro s t hs
    rw [hnext] at hs
    by_cases hsa : s = a
    · subst hsa
      rw [if_pos rfl] at hs
      cases hs
      simpa [Ne.symm hxa] using hplace.1
    · rw [if_neg hsa] at hs
      by_cases hsx : s = x
      · subst hsx
        rw [if_pos rfl] at hs
        have hts : t ≠ s := fun he => hfree a (he ▸ hs)
        simpa [hts] using hplace.2 t hs
      · rw [if_neg hsx] at hs
        have htx : t ≠ x := fun he => hfree s (he ▸ hs)
        simpa [hsx, htx] using hrank s t hs

end Linked

end SeL4Kernel
