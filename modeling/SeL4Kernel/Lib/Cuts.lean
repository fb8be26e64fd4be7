import Mathlib.Data.List.Perm.Basic
import SeL4Kernel.Lib.Ranges

/-!
# A set cut into ranges

`Cuts l covered`: the ranges of the list have no element in common, and together they are
`covered`. The order of the list does not matter, and some of the ranges may be replaced by
others that cover the same.
-/

namespace SeL4Kernel

open Range

variable {α : Type*} [LinearOrder α] {l l' s s' : List (Range α)} {covered : α → Prop} {x : α}

/-- The ranges cut `covered` into pieces. -/
structure Cuts (l : List (Range α)) (covered : α → Prop) : Prop where
  apart : l.Pairwise Apart
  cover : ∀ x, covered x ↔ Covered l x

theorem covered_perm (h : l.Perm l') : Covered l x ↔ Covered l' x := by
  constructor
  · rintro ⟨r, hr, hx⟩
    exact ⟨r, h.mem_iff.mp hr, hx⟩
  · rintro ⟨r, hr, hx⟩
    exact ⟨r, h.mem_iff.mpr hr, hx⟩

namespace Cuts

theorem perm (h : Cuts l covered) (hp : l.Perm l') : Cuts l' covered where
  apart := (hp.pairwise_iff Apart.symm).mp h.apart
  cover x := (h.cover x).trans (covered_perm hp)

/-- A part of the ranges is replaced by other ranges that cover the same. -/
theorem replace (h : Cuts (s ++ l) covered) (hs : s'.Pairwise Apart)
    (hc : ∀ x, Covered s' x ↔ Covered s x) : Cuts (s' ++ l) covered := by
  obtain ⟨-, hl, hcross⟩ := List.pairwise_append.mp h.apart
  constructor
  · refine List.pairwise_append.mpr ⟨hs, hl, fun a ha b hb x hxa hxb => ?_⟩
    obtain ⟨r, hr, hxr⟩ := (hc x).mp ⟨a, ha, hxa⟩
    exact hcross r hr b hb x hxr hxb
  · intro x
    rw [h.cover, covered_append, covered_append, hc]

theorem nil (a : α) : Cuts ([] : List (Range α)) (· ∈ (⟨a, a⟩ : Range α)) where
  apart := .nil
  cover x := by refine ⟨fun hx => absurd hx.2 (not_lt_of_ge hx.1), fun hx => absurd hx covered_nil⟩

/-- A range without elements does not matter. -/
theorem cons_self_iff {a : α} : Cuts (⟨a, a⟩ :: l) covered ↔ Cuts l covered := by
  have hempty : ∀ x, x ∉ (⟨a, a⟩ : Range α) := fun x hx => not_lt_of_ge hx.1 hx.2
  have hc : ∀ x, Covered (⟨a, a⟩ :: l) x ↔ Covered l x := fun x =>
    covered_cons.trans (or_iff_right (hempty x))
  constructor
  · exact fun h => ⟨(List.pairwise_cons.mp h.apart).2, fun x => (h.cover x).trans (hc x)⟩
  · exact fun h => ⟨List.pairwise_cons.mpr ⟨fun _ _ x hx => absurd hx (hempty x), h.apart⟩,
      fun x => (h.cover x).trans (hc x).symm⟩

/-- A range is added at the end of what is covered. -/
theorem extend {a b c : α} (h : Cuts l (· ∈ (⟨a, b⟩ : Range α))) (hab : a ≤ b) (hbc : b ≤ c) :
    Cuts (⟨b, c⟩ :: l) (· ∈ (⟨a, c⟩ : Range α)) where
  apart := by
    refine List.pairwise_cons.mpr ⟨fun r hr x hx hxr => ?_, h.apart⟩
    exact absurd ((h.cover x).mpr ⟨r, hr, hxr⟩).2 (not_lt_of_ge hx.1)
  cover x := by
    rw [covered_cons, ← h.cover x]
    constructor
    · rintro ⟨hax, hxc⟩
      rcases lt_or_ge x b with hxb | hxb
      · exact .inr ⟨hax, hxb⟩
      · exact .inl ⟨hxb, hxc⟩
    · rintro (⟨hbx, hxc⟩ | ⟨hax, hxb⟩)
      · exact ⟨hab.trans hbx, hxc⟩
      · exact ⟨hax, lt_of_lt_of_le hxb hbc⟩

/-- A range is added to what is covered. -/
theorem cons {r : Range α} (h : Cuts l covered) (hr : ∀ x ∈ r, ¬covered x) :
    Cuts (r :: l) (fun x => x ∈ r ∨ covered x) where
  apart := List.pairwise_cons.mpr
    ⟨fun b hb x hx hxb => hr x hx ((h.cover x).mpr ⟨b, hb, hxb⟩), h.apart⟩
  cover x := by rw [covered_cons, ← h.cover x]

theorem congr {covered' : α → Prop} (h : Cuts l covered) (hc : ∀ x, covered' x ↔ covered x) :
    Cuts l covered' := ⟨h.apart, fun x => (hc x).trans (h.cover x)⟩

end Cuts

end SeL4Kernel
