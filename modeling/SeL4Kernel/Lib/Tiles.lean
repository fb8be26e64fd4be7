import SeL4Kernel.Lib.Ranges

/-!
# Named blocks that tile a set

`Tiles leaf blk covered`: the blocks of the names with `leaf` have no element in common, and
together they are `covered`. A block can be split in two, two can be merged, and one added.
The names and blocks after the change are given by what they are, not by how they are updated.
-/

namespace SeL4Kernel

variable {ι : Type*} {α : Type*} [LinearOrder α]

/-- The blocks of the leaves tile `covered`. -/
structure Tiles (leaf : ι → Prop) (blk : ι → Range α) (covered : α → Prop) : Prop where
  apart : ∀ x y, leaf x → leaf y → x ≠ y → (blk x).Apart (blk y)
  cover : ∀ a, covered a ↔ ∃ x, leaf x ∧ a ∈ blk x

namespace Tiles

variable {leaf leaf' : ι → Prop} {blk blk' : ι → Range α} {covered covered' : α → Prop} {x l r : ι}
  (h : Tiles leaf blk covered)

include h

theorem eq_of_mem {y : ι} {a : α} (hx : leaf x) (hy : leaf y) (hax : a ∈ blk x) (hay : a ∈ blk y) :
    x = y := by
  by_contra hne
  exact h.apart x y hx hy hne a hax hay

/-- The blocks that are gone are replaced by new ones, which may have elements besides. -/
theorem replace (gone new : ι → Prop) (extra : α → Prop)
    (hleaf : ∀ y, leaf' y ↔ leaf y ∧ ¬gone y ∨ new y)
    (hblk : ∀ y, leaf y → ¬gone y → blk' y = blk y)
    (hnew : ∀ y z, new y → new z → y ≠ z → (blk' y).Apart (blk' z))
    (hmem : ∀ a, (∃ y, new y ∧ a ∈ blk' y) ↔ (∃ y, leaf y ∧ gone y ∧ a ∈ blk y) ∨ extra a)
    (hextra : ∀ a, extra a → ¬covered a) (hcov : ∀ a, covered' a ↔ covered a ∨ extra a) :
    Tiles leaf' blk' covered' := by
  -- a new block has no element of those that stay
  have hfresh : ∀ y z a, leaf y → new z → a ∈ blk y → a ∈ blk' z → gone y := by
    intro y z a hy hz hay haz
    rcases (hmem a).1 ⟨z, hz, haz⟩ with ⟨g, hg, hgone, hag⟩ | ha
    · exact h.eq_of_mem hg hy hag hay ▸ hgone
    · exact absurd ((h.cover a).2 ⟨y, hy, hay⟩) (hextra a ha)
  constructor
  · intro y z hy hz hne a hay haz
    rcases (hleaf y).1 hy with ⟨hy, hyg⟩ | hy
    · rw [hblk y hy hyg] at hay
      rcases (hleaf z).1 hz with ⟨hz, hzg⟩ | hz
      · rw [hblk z hz hzg] at haz
        exact h.apart y z hy hz hne a hay haz
      · exact hyg (hfresh y z a hy hz hay haz)
    · rcases (hleaf z).1 hz with ⟨hz, hzg⟩ | hz
      · rw [hblk z hz hzg] at haz
        exact hzg (hfresh z y a hz hy haz hay)
      · exact hnew y z hy hz hne a hay haz
  · intro a
    rw [hcov, h.cover]
    constructor
    · intro ha
      have hnew := (hmem a).2
      by_cases hstay : ∃ y, leaf y ∧ ¬gone y ∧ a ∈ blk y
      · obtain ⟨y, hy, hyg, hay⟩ := hstay
        exact ⟨y, (hleaf y).2 (.inl ⟨hy, hyg⟩), by rwa [hblk y hy hyg]⟩
      · obtain ⟨y, hy, hay⟩ := hnew (ha.imp_left fun ⟨y, hy, hay⟩ =>
          ⟨y, hy, by_contra fun hyg => hstay ⟨y, hy, hyg, hay⟩, hay⟩)
        exact ⟨y, (hleaf y).2 (.inr hy), hay⟩
    · rintro ⟨y, hy, hay⟩
      rcases (hleaf y).1 hy with ⟨hy, hyg⟩ | hy
      · exact .inl ⟨y, hy, by rwa [← hblk y hy hyg]⟩
      · exact ((hmem a).1 ⟨y, hy, hay⟩).imp_left fun ⟨g, hg, _, hag⟩ => ⟨g, hg, hag⟩

theorem congr (hleaf : ∀ y, leaf' y ↔ leaf y) (hblk : ∀ y, leaf y → blk' y = blk y) :
    Tiles leaf' blk' covered := by
  refine h.replace (fun _ => False) (fun _ => False) (fun _ => False) ?_ (fun y hy _ => hblk y hy)
    nofun ?_ nofun ?_
  all_goals simp [hleaf]

/-- The block of `x` is split into those of `l` and `r`. -/
theorem split (hx : leaf x) (hleaf : ∀ y, leaf' y ↔ leaf y ∧ y ≠ x ∨ y = l ∨ y = r)
    (hblk : ∀ y, leaf y → y ≠ x → blk' y = blk y)
    (hmem : ∀ a, a ∈ blk x ↔ a ∈ blk' l ∨ a ∈ blk' r) (hapart : (blk' l).Apart (blk' r)) :
    Tiles leaf' blk' covered := by
  refine h.replace (· = x) (fun y => y = l ∨ y = r) (fun _ => False) hleaf hblk ?_ ?_ nofun ?_
  · rintro y z (rfl | rfl) (rfl | rfl) hne
    · exact absurd rfl hne
    · exact hapart
    · exact hapart.symm
    · exact absurd rfl hne
  all_goals simp [hx, hmem, or_and_right, exists_or]

/-- The blocks of `l` and `r` are merged into that of `x`. -/
theorem merge (hl : leaf l) (hr : leaf r) (hleaf : ∀ y, leaf' y ↔ leaf y ∧ y ≠ l ∧ y ≠ r ∨ y = x)
    (hblk : ∀ y, leaf y → y ≠ l → y ≠ r → blk' y = blk y)
    (hmem : ∀ a, a ∈ blk' x ↔ a ∈ blk l ∨ a ∈ blk r) : Tiles leaf' blk' covered := by
  refine h.replace (fun y => y = l ∨ y = r) (· = x) (fun _ => False) ?_ ?_ ?_ ?_ nofun ?_
  · simp [hleaf]
  · exact fun y hy hg => hblk y hy (fun he => hg (.inl he)) fun he => hg (.inr he)
  · rintro y z rfl rfl hne
    exact absurd rfl hne
  all_goals simp [hl, hr, hmem, or_and_right, and_or_left, exists_or]

/-- A block of other elements is added. -/
theorem add (hleaf : ∀ y, leaf' y ↔ leaf y ∨ y = x) (hblk : ∀ y, leaf y → blk' y = blk y)
    (hfresh : ∀ a ∈ blk' x, ¬covered a) (hcov : ∀ a, covered' a ↔ covered a ∨ a ∈ blk' x) :
    Tiles leaf' blk' covered' := by
  refine h.replace (fun _ => False) (· = x) (· ∈ blk' x) ?_ (fun y hy _ => hblk y hy) ?_ ?_ hfresh
    hcov
  · simp [hleaf]
  · rintro y z rfl rfl hne
    exact absurd rfl hne
  · simp

end Tiles

end SeL4Kernel
