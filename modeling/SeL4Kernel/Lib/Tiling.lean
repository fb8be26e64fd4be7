import Mathlib.Data.Finset.Basic
import SeL4Kernel.Lib.Tiles

/-!
# Blocks that tile a set of addresses

`Tiling starts len covered`: the blocks `[a, a + len a)` for the addresses `a` in `starts`
are not empty, do not overlap, and their union is `covered`. Two blocks that meet can be
joined, a block can be split, and a new block can be added.
-/

namespace SeL4Kernel

open Function Finset

/-- `x` is in the block of length `n` at `a`. -/
def InBlock (a n x : ℕ) : Prop := a ≤ x ∧ x < a + n

/-- The blocks at `starts` tile `covered`. -/
structure Tiling (starts : Finset ℕ) (len : ℕ → ℕ) (covered : ℕ → Prop) : Prop where
  pos : ∀ a ∈ starts, 0 < len a
  apart : ∀ a ∈ starts, ∀ b ∈ starts, a < b → a + len a ≤ b
  cover : ∀ x, covered x ↔ ∃ a ∈ starts, InBlock a (len a) x

namespace Tiling

variable {starts : Finset ℕ} {len len' : ℕ → ℕ} {covered : ℕ → Prop} {a b n : ℕ}

/-- The blocks are ranges that tile. -/
theorem iff_tiles : Tiling starts len covered ↔ (∀ a ∈ starts, 0 < len a) ∧
    Tiles (· ∈ starts) (fun a => ⟨a, a + len a⟩) covered := by
  refine ⟨fun h => ⟨h.pos, ?_, h.cover⟩, fun ⟨hpos, h⟩ => ⟨hpos, ?_, h.cover⟩⟩
  · intro a b ha hb hne
    rcases Nat.lt_or_gt_of_ne hne with hlt | hlt
    · exact Range.apart_of_le (h.apart a ha b hb hlt)
    · exact (Range.apart_of_le (h.apart b hb a ha hlt)).symm
  · intro a ha b hb hlt
    have ha' := hpos a ha
    have hb' := hpos b hb
    rcases (h.apart a b ha hb (by omega)).le_or_le (show a < a + len a by omega)
      (show b < b + len b by omega) with hle | hle
    · exact hle
    · have hle : b + len b ≤ a := hle
      omega

variable (h : Tiling starts len covered)

include h

theorem congr (heq : ∀ a ∈ starts, len' a = len a) : Tiling starts len' covered := by
  refine iff_tiles.2 ⟨fun a ha => heq a ha ▸ h.pos a ha, ?_⟩
  exact (iff_tiles.1 h).2.congr (fun _ => Iff.rfl) fun a ha => by rw [heq a ha]

/-- A block is covered. -/
theorem covered_of_mem (ha : a ∈ starts) {x : ℕ} (hx : InBlock a (len a) x) :
    covered x := (h.cover x).2 ⟨a, ha, hx⟩

/-- A block of other addresses is added. -/
theorem add (hn : 0 < n) (hfresh : ∀ x, InBlock a n x → ¬covered x) :
    a ∉ starts ∧ Tiling (insert a starts) (update len a n)
      (fun x => covered x ∨ InBlock a n x) := by
  have hmem : a ∉ starts := by
    intro ha
    have := h.pos a ha
    exact hfresh a ⟨by omega, by omega⟩ (h.covered_of_mem ha ⟨by omega, by omega⟩)
  have hold : ∀ b ∈ starts, update len a n b = len b := fun b hb =>
    update_of_ne (fun hc : b = a => hmem (hc ▸ hb)) _ _
  refine ⟨hmem, iff_tiles.2 ⟨?_, (iff_tiles.1 h).2.add (x := a) ?_ ?_ ?_ ?_⟩⟩
  · exact forall_mem_insert _ _ _ |>.2 ⟨by rwa [update_self], fun b hb => hold b hb ▸ h.pos b hb⟩
  · exact fun b => mem_insert.trans or_comm
  · exact fun b hb => by rw [hold b hb]
  · rw [update_self]
    exact hfresh
  · rw [update_self]
    exact fun x => Iff.rfl

/-- The block at `a` takes in the one behind it. -/
theorem join (ha : a ∈ starts) (hb : b ∈ starts) (hmeet : a + len a = b) :
    Tiling (starts.erase b) (update len a (len a + len b)) covered := by
  have hpos := h.pos a ha
  refine iff_tiles.2 ⟨fun c hc => ?_, (iff_tiles.1 h).2.merge (l := a) (r := b) (x := a) ha hb
    ?_ ?_ ?_⟩
  · by_cases hca : c = a
    · rw [hca, update_self]
      omega
    · rw [update_of_ne hca]
      exact h.pos c (mem_of_mem_erase hc)
  · intro c
    rw [mem_erase]
    by_cases hca : c = a
    · subst hca
      exact iff_of_true ⟨by omega, ha⟩ (.inr rfl)
    · simp [hca, and_comm]
  · exact fun c _ hca _ => by rw [update_of_ne hca]
  · intro x
    rw [update_self, Range.mem_iff, Range.mem_iff, Range.mem_iff]
    dsimp only
    omega

/-- The last `n` addresses of the block at `a` become a block. -/
theorem split (ha : a ∈ starts) (hn : 0 < n) (hlt : n < len a) :
    a + (len a - n) ∉ starts ∧
      Tiling (insert (a + (len a - n)) starts)
        (update (update len a (len a - n)) (a + (len a - n)) n) covered := by
  have hmem : a + (len a - n) ∉ starts := by
    intro hb
    have := h.apart a ha _ hb (by omega)
    omega
  generalize hb : a + (len a - n) = b at hmem
  have hself : update (update len a (len a - n)) b n a = len a - n := by
    rw [update_of_ne (by omega), update_self]
  have hold : ∀ c ∈ starts, c ≠ a → update (update len a (len a - n)) b n c = len c := by
    intro c hc hca
    rw [update_of_ne (fun h : c = b => hmem (h ▸ hc)), update_of_ne hca]
  refine ⟨hmem, iff_tiles.2 ⟨fun c hc => ?_, (iff_tiles.1 h).2.split (x := a) (l := a) (r := b) ha
    ?_ ?_ ?_ ?_⟩⟩
  · rcases mem_insert.1 hc with rfl | hc
    · rwa [update_self]
    · by_cases hca : c = a
      · rw [hca]
        omega
      · rw [hold c hc hca]
        exact h.pos c hc
  · intro c
    by_cases hca : c = a
    · simp [hca, ha]
    · simp [hca, or_comm]
  · exact fun c hc hca => by rw [hold c hc hca]
  · intro x
    rw [update_self, Range.mem_iff, Range.mem_iff, Range.mem_iff]
    dsimp only
    omega
  · rw [hself]
    exact Range.apart_of_le (Nat.le_of_eq hb)

end Tiling

end SeL4Kernel
