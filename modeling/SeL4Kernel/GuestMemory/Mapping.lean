import SeL4Kernel.GuestMemory.Reservations

/-!
# Mapping the memory of a reservation

`map_vm_memory_reservation` asks an iterator for one frame after the other and maps each, until
the end of the reservation is reached. If a mapping fails, it returns an error and leaves the
reservation as it was, so that the next fault tries again. If the iterator has no frame, it
leaves the loop, and goes on as if the end had been reached: the reservation is marked as mapped
and its iterator is dropped.

The loop goes on behind the address it has asked for by the size of the frame, wherever the frame
is. An iterator that rounds the address down to a page therefore leaves the end of a reservation
without a frame if that does not begin at a page.
-/

namespace SeL4Kernel.GuestMemory

structure Frame where
  vaddr : Nat
  sizeBits : Nat

def Frame.covers (a : Nat) (f : Frame) : Bool :=
  decide (f.vaddr ≤ a ∧ a < f.vaddr + 2 ^ f.sizeBits)

/-- The mapping at the `i`th call succeeds: `maps` says which ones do, and none does that leads out
of the address space. -/
def Frame.Mapped (maps : Nat → Bool) (i : Nat) (f : Frame) : Prop :=
  maps i = true ∧ f.vaddr + 2 ^ f.sizeBits < 2 ^ 64

instance {maps : Nat → Bool} {i : Nat} {f : Frame} : Decidable (f.Mapped maps i) :=
  inferInstanceAs (Decidable (_ ∧ _))

/-- How the loop is left. -/
inductive MapExit where
  | mapped
  | nullFrame
  | failed
  deriving DecidableEq

/-- The loop, from the `i`th call of the iterator on, with the frames that it maps. -/
def mapFrames (mapIterator : Nat → Nat → Option Frame) (maps : Nat → Bool) (stop : Nat) :
    Nat → Nat → Nat → MapExit × List Frame
  | 0, _, _ => (.mapped, [])
  | fuel + 1, i, currentAddr =>
    if currentAddr < stop then
      match mapIterator i currentAddr with
      | none => (.nullFrame, [])
      | some f =>
        if f.Mapped maps i then
          let rest := mapFrames mapIterator maps stop fuel (i + 1) (currentAddr + 2 ^ f.sizeBits)
          (rest.1, f :: rest.2)
        else (.failed, [])
    else (.mapped, [])

structure Mapping where
  exit : MapExit
  frames : List Frame
  reservation : Reservation

/-- The call returns an error. -/
def Mapping.err (m : Mapping) : Bool := decide (m.exit = .failed)

/-- A frame has a byte at least, so that `size` rounds suffice. -/
def mapVmMemoryReservation (mapIterator : Nat → Nat → Option Frame) (maps : Nat → Bool)
    (r : Reservation) : Mapping :=
  let l := mapFrames mapIterator maps (r.addr + r.size) r.size 0 r.addr
  { exit := l.1, frames := l.2
    reservation :=
      if l.1 = .failed then r else { r with isMapped := true, memoryMapIterator := false } }

/-- Each byte of the reservation is mapped exactly once. -/
def Complete (r : Reservation) (fs : List Frame) : Prop :=
  ∀ a, r.addr ≤ a → a < r.addr + r.size → fs.countP (Frame.covers a) = 1

/-- Success stands for memory that is mapped, and after a failure a fault maps it or fails. -/
def Mapping.Sound (r : Reservation) (m : Mapping) : Prop :=
  (m.err = false → Complete r m.frames ∧ m.reservation.isMapped = true) ∧
  (m.err = true → ∀ addr size again, faultReservation addr size again m.reservation =
    if again then .restart else .error)

/-- A fault comes to the iterator if and only if the reservation waits for it. -/
theorem faultReservation_waits_iff (r : Reservation) :
    (∀ addr size again, faultReservation addr size again r =
      if again then .restart else .error) ↔ r.isMapped = false ∧ r.memoryMapIterator = true := by
  constructor
  · intro h
    have h := h 0 0 true
    unfold faultReservation at h
    split at h
    · assumption
    · split at h <;> cases h
  · intro h addr size again
    exact if_pos h

/-! ### The calls of the iterator -/

/-- From its `i`th call on the iterator is asked for `a` first and for `b` next, and the frames
that it gives between are mapped. -/
inductive Gives (mapIterator : Nat → Nat → Option Frame) (maps : Nat → Bool) (stop : Nat) :
    Nat → Nat → List Frame → Nat → Prop
  | nil {i a : Nat} : Gives mapIterator maps stop i a [] a
  | cons {i a b : Nat} {f : Frame} {fs : List Frame} (ha : a < stop)
    (hf : mapIterator i a = some f) (hm : f.Mapped maps i)
    (h : Gives mapIterator maps stop (i + 1) (a + 2 ^ f.sizeBits) fs b) :
    Gives mapIterator maps stop i a (f :: fs) b

/-- The frames follow each other from `v` to `e`. -/
def Follow : Nat → List Frame → Nat → Prop
  | v, [], e => v = e
  | v, f :: fs, e => f.vaddr = v ∧ Follow (v + 2 ^ f.sizeBits) fs e

variable {mapIterator : Nat → Nat → Option Frame} {maps : Nat → Bool}
  {stop fuel i a b v e x : Nat} {f : Frame} {fs : List Frame}

theorem Frame.covers_iff : f.covers x = true ↔ f.vaddr ≤ x ∧ x < f.vaddr + 2 ^ f.sizeBits :=
  decide_eq_true_iff

/-- Frames that follow each other have each byte between once. -/
theorem Follow.countP (h : Follow v fs e) :
    v ≤ e ∧ fs.countP (Frame.covers x) = if v ≤ x ∧ x < e then 1 else 0 := by
  induction fs generalizing v with
  | nil =>
    cases h
    exact ⟨Nat.le_refl _, (if_neg (by omega)).symm⟩
  | cons f fs ih =>
    obtain ⟨rfl, h⟩ := h
    obtain ⟨hle, hcount⟩ := ih h
    have hpos : 0 < 2 ^ f.sizeBits := Nat.two_pow_pos _
    refine ⟨by omega, ?_⟩
    simp only [List.countP_cons, hcount, Frame.covers_iff]
    -- the byte is in the first frame, or behind it, and not in both
    split <;> split <;> split <;> omega

/-- The loop makes these calls. -/
theorem Gives.mapFrames_eq (h : Gives mapIterator maps stop i a fs b) (hfuel : stop ≤ a + fuel) :
    ∃ n, stop ≤ b + n ∧ mapFrames mapIterator maps stop fuel i a =
      ((mapFrames mapIterator maps stop n (i + fs.length) b).1,
        fs ++ (mapFrames mapIterator maps stop n (i + fs.length) b).2) := by
  induction h generalizing fuel with
  | nil => exact ⟨fuel, hfuel, rfl⟩
  | @cons i a b f fs ha hf hm h ih =>
    have hpos : 0 < 2 ^ f.sizeBits := Nat.two_pow_pos _
    obtain ⟨fuel, rfl⟩ : ∃ n, fuel = n + 1 := ⟨fuel - 1, by omega⟩
    obtain ⟨n, hn, heq⟩ := @ih fuel (by omega)
    refine ⟨n, hn, ?_⟩
    rw [mapFrames, if_pos ha, hf]
    dsimp only
    rw [if_pos hm, heq, List.length_cons, Nat.add_right_comm i, ← Nat.add_assoc]
    rfl

/-- It makes calls until the end is reached, there is no frame, or a mapping fails. -/
theorem exists_gives (hfuel : stop ≤ a + fuel) :
    ∃ fs b, Gives mapIterator maps stop i a fs b ∧ (stop ≤ b ∨ b < stop ∧
      ∀ f, mapIterator (i + fs.length) b = some f → ¬f.Mapped maps (i + fs.length)) := by
  induction fuel generalizing i a with
  | zero => exact ⟨[], a, .nil, .inl hfuel⟩
  | succ fuel ih =>
    by_cases ha : a < stop
    · by_cases hf : ∃ f, mapIterator i a = some f ∧ f.Mapped maps i
      · obtain ⟨f, hf, hm⟩ := hf
        have hpos : 0 < 2 ^ f.sizeBits := Nat.two_pow_pos _
        obtain ⟨fs, b, h, hend⟩ := @ih (i + 1) (a + 2 ^ f.sizeBits) (by omega)
        rw [Nat.add_right_comm, Nat.add_assoc, ← List.length_cons] at hend
        exact ⟨f :: fs, b, .cons ha hf hm h, hend⟩
      · exact ⟨[], a, .nil, .inr ⟨ha, fun f h hm => hf ⟨f, h, hm⟩⟩⟩
    · exact ⟨[], a, .nil, .inl (Nat.le_of_not_lt ha)⟩

/-- What the call maps, and how the loop is left, after the last of these calls. -/
theorem mapVmMemoryReservation_eq {r : Reservation}
    (h : Gives mapIterator maps (r.addr + r.size) 0 r.addr fs b)
    (hend : r.addr + r.size ≤ b ∨ b < r.addr + r.size ∧
      ∀ f, mapIterator fs.length b = some f → ¬f.Mapped maps fs.length) :
    (mapVmMemoryReservation mapIterator maps r).frames = fs ∧
      (mapVmMemoryReservation mapIterator maps r).exit =
        if r.addr + r.size ≤ b then .mapped
        else if mapIterator fs.length b = none then .nullFrame else .failed := by
  obtain ⟨n, hn, heq⟩ := h.mapFrames_eq (Nat.le_refl _)
  have hlast : mapFrames mapIterator maps (r.addr + r.size) n (0 + fs.length) b =
      (if r.addr + r.size ≤ b then .mapped
        else if mapIterator fs.length b = none then .nullFrame else .failed, []) := by
    rw [Nat.zero_add]
    rcases hend with hend | ⟨hlt, hend⟩
    · rw [if_pos hend]
      cases n with
      | zero => rfl
      | succ n => exact if_neg (Nat.not_lt.mpr hend)
    · obtain ⟨n, rfl⟩ : ∃ m, n = m + 1 := ⟨n - 1, by omega⟩
      rw [mapFrames, if_pos hlt, if_neg (Nat.not_le.mpr hlt)]
      cases hf : mapIterator fs.length b with
      | none => rfl
      | some f => exact if_neg (hend f hf)
  rw [mapVmMemoryReservation, heq, hlast]
  exact ⟨List.append_nil fs, rfl⟩

/-- A call that fails is sound if the reservation waits, any other if the frames are complete. -/
theorem sound_iff (r : Reservation) :
    (mapVmMemoryReservation mapIterator maps r).Sound r ↔
      if (mapVmMemoryReservation mapIterator maps r).exit = .failed then
        r.isMapped = false ∧ r.memoryMapIterator = true
      else Complete r (mapVmMemoryReservation mapIterator maps r).frames := by
  rw [← faultReservation_waits_iff]
  unfold Mapping.Sound Mapping.err mapVmMemoryReservation
  by_cases hx : (mapFrames mapIterator maps (r.addr + r.size) r.size 0 r.addr).1 = .failed
  · simp [hx]
  · simp [hx]

section
variable (hi : ∀ i a f, mapIterator i a = some f → f.covers a = true)
include hi

/-- Every frame ends behind the address that is asked for first, and not behind the last. -/
theorem Gives.bounds (h : Gives mapIterator maps stop i a fs b) :
    a ≤ b ∧ ∀ f ∈ fs, a < f.vaddr + 2 ^ f.sizeBits ∧ f.vaddr + 2 ^ f.sizeBits ≤ b := by
  induction h with
  | nil => exact ⟨Nat.le_refl _, nofun⟩
  | @cons i a b f fs ha hf hm h ih =>
    have hcov := Frame.covers_iff.mp (hi i a f hf)
    refine ⟨by omega, List.forall_mem_cons.mpr ⟨by omega, fun g hg => ?_⟩⟩
    have := ih.2 g hg
    omega

/-- Frames that have each byte once follow each other. If there is a gap behind the first, a later
frame would have to reach back over the one after the gap. -/
theorem Gives.follow (h : Gives mapIterator maps stop i a fs b) (hb : stop ≤ b) {lo : Nat}
    (hlo : lo ≤ a) (hhead : ∀ f ∈ fs.head?, f.vaddr ≤ lo)
    (hc : ∀ x, lo ≤ x → x < stop → fs.countP (Frame.covers x) = 1) :
    ∃ v e, Follow v fs e ∧ v ≤ lo ∧ stop ≤ e := by
  induction h generalizing lo with
  | nil =>
    refine ⟨lo, lo, rfl, Nat.le_refl lo, Nat.le_of_not_lt fun hlt => ?_⟩
    exact Nat.zero_ne_one (hc lo (Nat.le_refl lo) hlt)
  | @cons i a b f fs ha hf hm h ih =>
    have hv : f.vaddr ≤ lo := hhead f rfl
    have hcov := (Frame.covers_iff.mp (hi i a f hf))
    have hin : ∀ x, lo ≤ x → x < f.vaddr + 2 ^ f.sizeBits → x < stop →
        fs.countP (Frame.covers x) = 0 := by
      intro x h1 h2 h3
      have := hc x h1 h3
      rw [List.countP_cons_of_pos (Frame.covers_iff.mpr ⟨by omega, h2⟩)] at this
      omega
    have hout : ∀ x, f.vaddr + 2 ^ f.sizeBits ≤ x → x < stop →
        fs.countP (Frame.covers x) = 1 := by
      intro x h1 h2
      have := hc x (by omega) h2
      rwa [List.countP_cons_of_neg (by rw [Frame.covers_iff]; omega)] at this
    cases h with
    | nil =>
      refine ⟨f.vaddr, _, ⟨rfl, rfl⟩, hv, Nat.le_of_not_lt fun hlt => ?_⟩
      exact Nat.zero_ne_one (hout _ (Nat.le_refl _) hlt)
    | @cons _ _ _ g gs ha' hg hm' h' =>
      have hgcov := Frame.covers_iff.mp (hi _ _ g hg)
      have hg_le : g.vaddr ≤ f.vaddr + 2 ^ f.sizeBits := by
        by_contra hgap
        have hone := hout (f.vaddr + 2 ^ f.sizeBits) (Nat.le_refl _) (by omega)
        rw [List.countP_cons_of_neg (by rw [Frame.covers_iff]; omega)] at hone
        obtain ⟨k, hk, hkcov⟩ := List.countP_pos_iff.mp (Nat.lt_of_lt_of_eq Nat.one_pos hone.symm)
        have htwo := hout (a + 2 ^ f.sizeBits) (by omega) ha'
        rw [List.countP_cons_of_pos (hi _ _ g hg), Nat.add_eq_right] at htwo
        refine List.countP_eq_zero.mp htwo k hk (Frame.covers_iff.mpr ⟨?_, ?_⟩)
        · have := (Frame.covers_iff.mp hkcov).1
          omega
        · have := (h'.bounds hi).2 k hk
          omega
      obtain ⟨v, e, ⟨rfl, hfollow⟩, -, he⟩ := ih hb (Nat.add_le_add_right hcov.1 _)
        (fun k hk => Option.some.inj hk ▸ hg_le) hout
      have hg_eq : g.vaddr = f.vaddr + 2 ^ f.sizeBits := by
        have hzero := hin (f.vaddr + 2 ^ f.sizeBits - 1) (by omega) (by omega) (by omega)
        have := List.countP_eq_zero.mp hzero g List.mem_cons_self
        rw [Frame.covers_iff] at this
        omega
      exact ⟨f.vaddr, e, ⟨rfl, hg_eq, hg_eq ▸ hfollow⟩, hv, he⟩

/-- The frames cover the reservation once if and only if they follow each other over it. -/
theorem Gives.complete_iff {r : Reservation}
    (h : Gives mapIterator maps (r.addr + r.size) 0 r.addr fs b) :
    Complete r fs ↔ r.addr + r.size ≤ b ∧
      ∃ v e, Follow v fs e ∧ v ≤ r.addr ∧ r.addr + r.size ≤ e := by
  obtain ⟨hle, hbounds⟩ := h.bounds hi
  constructor
  · intro hc
    have hb : r.addr + r.size ≤ b := by
      refine Nat.le_of_not_lt fun hlt => absurd (hc b hle hlt) ?_
      rw [List.countP_eq_zero.mpr]
      · decide
      intro f hf hcov
      exact absurd (hbounds f hf).2 (Nat.not_le.mpr (Frame.covers_iff.mp hcov).2)
    refine ⟨hb, h.follow hi hb (Nat.le_refl _) (fun f hf => ?_) hc⟩
    cases h with
    | nil => cases hf
    | cons ha hg => exact Option.some.inj hf ▸ (Frame.covers_iff.mp (hi _ _ _ hg)).1
  · rintro ⟨-, v, e, hfollow, hv, he⟩ x hlo hhi
    exact hfollow.countP.2.trans (if_pos ⟨by omega, by omega⟩)

end

/-- Guest memory that waits for its frames. -/
def waiting (addr size : Nat) : Reservation :=
  { addr, size, faultCallback := none, isMapped := false, memoryMapIterator := true
    resType := .regular, align := 1 }

/-- The frames of `ram_alloc_iterator`. -/
def ramAllocIterator (_ addr : Nat) : Option Frame := some ⟨addr - addr % 4096, 12⟩

/-- The call succeeds, the reservation counts as mapped, and a byte has not been mapped. -/
def Mapping.Incomplete (r : Reservation) (m : Mapping) : Prop :=
  m.err = false ∧ m.reservation.isMapped = true ∧ ¬Complete r m.frames

end SeL4Kernel.GuestMemory
