import SeL4Kernel.Object.Retype

/-!
# Clearing an untyped in chunks

The loop of `resetUntypedCap` counts its offset down in words and ends when the offset has
wrapped below zero. It keeps its progress in the free index of the capability: the memory
from the free offset on is always clear, so that a call after a preemption goes on where the
last one stopped.

`resetUntypedCapWords` is the function with the loop as it is in the source. It also lists
the states at the preemption points.
-/

namespace SeL4Kernel

/-! ### The loop in words -/

/-- One round of the loop, up to the preemption point. -/
def resetChunk (srcSlot : Slot) (c : UntypedCap) (offset : Nat) (w : Work) : Work :=
  { w with
    kernel := clearMemory ((c.capPtr + offset) % 2 ^ 64) resetChunkBits w.kernel }.setCap srcSlot
      (.untyped { c with capFreeIndex := offsetToFreeIndex offset })

/-- The loop from an offset on. -/
def resetLoop (srcSlot : Slot) (c : UntypedCap) :
    Nat → Nat → Work → Except Stuck (List Kernel × Status × Work)
  | 0, _, _ => .error .noReturn
  | fuel + 1, offset, w =>
    if offset = 2 ^ 64 - 2 ^ resetChunkBits then .ok ([], .none, w)
    else
      let w := resetChunk srcSlot c offset w
      let (preempted, w₁) := preemptionPoint w
      if preempted then .ok ([w.kernel], .preempted, w₁)
      else do
        let (points, result) ←
          resetLoop srcSlot c fuel ((offset + 2 ^ 64 - 2 ^ resetChunkBits) % 2 ^ 64) w₁
        .ok (w.kernel :: points, result)

def resetUntypedCapWords (fuel : Nat) (srcSlot : Slot) (c : UntypedCap) (w : Work) :
    Except Stuck (List Kernel × Status × Work) :=
  let offset := freeIndexToOffset c.capFreeIndex
  if offset = 0 then .ok ([], .none, w)
  else if c.capIsDevice = true ∨ c.capBlockSize < resetChunkBits then
    let s := if c.capIsDevice then w.kernel else clearMemory c.capPtr c.capBlockSize w.kernel
    .ok ([], .none, { w with kernel := s }.setCap srcSlot (.untyped { c with capFreeIndex := 0 }))
  else
    resetLoop srcSlot c fuel ((offset - 1) / 2 ^ resetChunkBits * 2 ^ resetChunkBits) w

/-! ### What is clear -/

/-- The memory of the untyped is clear from the offset on. -/
def ZeroFrom (c : UntypedCap) (offset : Nat) (s : Kernel) : Prop :=
  ∀ a, c.capPtr + offset ≤ a → a < c.last → s.memory a = 0

/-- The free offset of the untyped in a slot. -/
def freeOffset (slot : Slot) (s : Kernel) : Nat :=
  match s.cap slot with
  | .untyped c => c.capFreeIndex * 2 ^ minUntypedBits
  | _ => 0

/-- The slot has the untyped, up to its free index, and it is clear from the free offset on. -/
def ClearedFrom (slot : Slot) (c : UntypedCap) (s : Kernel) : Prop :=
  ∃ freeIndex, s.cap slot = .untyped { c with capFreeIndex := freeIndex } ∧
    ZeroFrom c (freeIndex * 2 ^ minUntypedBits) s

/-- The round for the chunk with number `k`. -/
abbrev resetNth (slot : Slot) (c : UntypedCap) (k : Nat) (w : Work) : Work :=
  resetChunk slot c (k * 2 ^ resetChunkBits) w

variable {slot : Slot} {c : UntypedCap} {w : Work}

theorem freeOffset_eq {s : Kernel} (h : s.cap slot = .untyped c) :
    freeOffset slot s = c.capFreeIndex * 2 ^ minUntypedBits := by
  rw [freeOffset, h]

theorem cap_resetChunk (offset : Nat) :
    (resetChunk slot c offset w).kernel.cap slot =
      .untyped { c with capFreeIndex := offsetToFreeIndex offset } :=
  Function.update_self ..

/-- A chunk is a whole number of free index steps. -/
theorem offsetToFreeIndex_chunk (k : Nat) :
    offsetToFreeIndex (k * 2 ^ resetChunkBits) * 2 ^ minUntypedBits = k * 2 ^ resetChunkBits :=
  Nat.div_mul_cancel (dvd_trans (pow_dvd_pow 2 (by decide)) (Nat.dvd_mul_left ..))

theorem freeOffset_resetChunk (k : Nat) :
    freeOffset slot (resetNth slot c k w).kernel = k * 2 ^ resetChunkBits := by
  rw [freeOffset_eq (cap_resetChunk _)]
  exact offsetToFreeIndex_chunk k

/-- A round moves the start of the clear part down by a chunk. -/
theorem zeroFrom_resetChunk {k : Nat} (hc : c.WellFormed)
    (hk : (k + 1) * 2 ^ resetChunkBits ≤ 2 ^ c.capBlockSize)
    (hzero : ZeroFrom c ((k + 1) * 2 ^ resetChunkBits) w.kernel) :
    ZeroFrom c (k * 2 ^ resetChunkBits) (resetNth slot c k w).kernel := by
  intro a hfrom hlast
  have htop := hc.top
  have hchunk : (c.capPtr + k * 2 ^ resetChunkBits) % 2 ^ 64 = c.capPtr + k * 2 ^ resetChunkBits :=
    Nat.mod_eq_of_lt (by
      have hpos := Nat.two_pow_pos resetChunkBits
      rw [Nat.succ_mul] at hk
      exact lt_of_lt_of_le (Nat.add_lt_add_left (by omega) _) htop)
  change (clearMemory ((c.capPtr + k * 2 ^ resetChunkBits) % 2 ^ 64) resetChunkBits
    w.kernel).memory a = 0
  rw [hchunk, clearMemory]
  dsimp only
  split
  · rfl
  next hout =>
    refine hzero a ?_ hlast
    have hle : c.capPtr + k * 2 ^ resetChunkBits + 2 ^ resetChunkBits ≤ a :=
      not_lt.mp fun hlt => hout ⟨hfrom, hlt⟩
    rwa [Nat.succ_mul, ← Nat.add_assoc]

theorem clearedFrom_resetChunk {k : Nat} (hc : c.WellFormed)
    (hk : (k + 1) * 2 ^ resetChunkBits ≤ 2 ^ c.capBlockSize)
    (hzero : ZeroFrom c ((k + 1) * 2 ^ resetChunkBits) w.kernel) :
    ClearedFrom slot c (resetNth slot c k w).kernel := by
  refine ⟨_, cap_resetChunk _, ?_⟩
  rw [offsetToFreeIndex_chunk]
  exact zeroFrom_resetChunk hc hk hzero

/-! ### One call -/

/-- What a call of `resetUntypedCap` does, with the states at its preemption points. -/
structure ResetSpec (slot : Slot) (c : UntypedCap) (offset : Nat) (points : List Kernel)
    (status : Status) (w' : Work) : Prop where
  cleared : ∀ p ∈ points, ClearedFrom slot c p
  below : ∀ p ∈ points, freeOffset slot p < offset
  decreasing : points.Pairwise fun p q => freeOffset slot q < freeOffset slot p
  preempted : status = .preempted → points.getLast? = some w'.kernel
  none : status = .none →
    w'.kernel.cap slot = .untyped { c with capFreeIndex := 0 } ∧ ZeroFrom c 0 w'.kernel

theorem preemptionPoint_kernel (w : Work) : (preemptionPoint w).2.kernel = w.kernel := by
  rw [preemptionPoint]
  split <;> rfl

/-- The offset after the last chunk is the one that ends the loop, and no other is. -/
theorem chunk_wraps {k : Nat} (hk : k * 2 ^ resetChunkBits < 2 ^ 64) :
    (k * 2 ^ resetChunkBits + 2 ^ 64 - 2 ^ resetChunkBits) % 2 ^ 64 =
      if k = 0 then 2 ^ 64 - 2 ^ resetChunkBits else (k - 1) * 2 ^ resetChunkBits := by
  have hchunk : 2 ^ resetChunkBits = 256 := rfl
  rw [hchunk] at hk ⊢
  split <;> omega

theorem resetLoop_chunk {k fuel : Nat} (hk : (k + 1) * 2 ^ resetChunkBits < 2 ^ 64) :
    resetLoop slot c (fuel + 1) (k * 2 ^ resetChunkBits) w =
      if (preemptionPoint (resetNth slot c k w)).1 then
        .ok ([(resetNth slot c k w).kernel], .preempted, (preemptionPoint (resetNth slot c k w)).2)
      else
        resetLoop slot c fuel ((k * 2 ^ resetChunkBits + 2 ^ 64 - 2 ^ resetChunkBits) % 2 ^ 64)
          (preemptionPoint (resetNth slot c k w)).2 >>= fun r =>
            .ok ((resetNth slot c k w).kernel :: r.1, r.2) := by
  rw [resetLoop, if_neg]
  rw [Nat.succ_mul] at hk
  omega

theorem resetChunks_chunk {k : Nat} (hk : c.capPtr + k * 2 ^ resetChunkBits < 2 ^ 64) :
    resetChunks slot c (k + 1) w =
      if (preemptionPoint (resetNth slot c k w)).1 then
        (.preempted, (preemptionPoint (resetNth slot c k w)).2)
      else
        resetChunks slot c k (preemptionPoint (resetNth slot c k w)).2 := by
  rw [resetChunks, resetNth, resetChunk, Nat.mod_eq_of_lt hk]

theorem chunk_lt (k : Nat) : k * 2 ^ resetChunkBits < (k + 1) * 2 ^ resetChunkBits :=
  Nat.mul_lt_mul_of_pos_right (by omega) (Nat.two_pow_pos _)

/-- A round that is preempted. -/
theorem ResetSpec.single {k offset : Nat} {w' : Work} (hoffset : k * 2 ^ resetChunkBits < offset)
    (hcleared : ClearedFrom slot c (resetNth slot c k w).kernel)
    (hkernel : w'.kernel = (resetNth slot c k w).kernel) :
    ResetSpec slot c offset [(resetNth slot c k w).kernel] .preempted w' := by
  refine ⟨?_, ?_, List.pairwise_singleton .., fun _ => congrArg some hkernel.symm, nofun⟩
  · intro p hp
    rwa [List.mem_singleton.mp hp]
  · intro p hp
    rwa [List.mem_singleton.mp hp, freeOffset_resetChunk]

/-- A round before the rest of the loop. -/
theorem ResetSpec.cons {k offset : Nat} {points : List Kernel} {status : Status} {w' : Work}
    (hoffset : k * 2 ^ resetChunkBits < offset)
    (hcleared : ClearedFrom slot c (resetNth slot c k w).kernel)
    (h : ResetSpec slot c (k * 2 ^ resetChunkBits) points status w') :
    ResetSpec slot c offset ((resetNth slot c k w).kernel :: points) status w' := by
  refine ⟨?_, ?_, ?_, ?_, h.none⟩
  · intro p hp
    rcases List.mem_cons.mp hp with rfl | hp
    · exact hcleared
    · exact h.cleared p hp
  · intro p hp
    rcases List.mem_cons.mp hp with rfl | hp
    · rwa [freeOffset_resetChunk]
    · exact lt_trans (h.below p hp) hoffset
  · refine List.pairwise_cons.mpr ⟨fun q hq => ?_, h.decreasing⟩
    rw [freeOffset_resetChunk]
    exact h.below q hq
  · intro hstatus
    cases points with
    | nil => exact absurd (h.preempted hstatus) nofun
    | cons p points => exact h.preempted hstatus

/-- **The loop returns**, and what it does. By induction on the chunks that are left. -/
theorem resetLoop_spec (hc : c.WellFormed) {k offset : Nat}
    (hoffset : ∀ j, k = j + 1 → j * 2 ^ resetChunkBits < offset)
    (hk : k * 2 ^ resetChunkBits ≤ 2 ^ c.capBlockSize)
    (hcap : k = 0 → w.kernel.cap slot = .untyped { c with capFreeIndex := 0 })
    (hzero : ZeroFrom c (k * 2 ^ resetChunkBits) w.kernel) :
    ∃ points status w',
      (∀ fuel, k < fuel → resetLoop slot c fuel
        ((k * 2 ^ resetChunkBits + 2 ^ 64 - 2 ^ resetChunkBits) % 2 ^ 64) w =
          .ok (points, status, w')) ∧
      resetChunks slot c k w = (status, w') ∧
      ResetSpec slot c offset points status w' := by
  induction k generalizing offset w with
  | zero =>
    refine ⟨[], .none, w, fun fuel hfuel => ?_, rfl, by simp, by simp, .nil, nofun,
      fun _ => ⟨hcap rfl, ?_⟩⟩
    · obtain ⟨fuel, rfl⟩ : ∃ n, fuel = n + 1 := ⟨fuel - 1, by omega⟩
      rw [resetLoop, if_pos (by decide)]
    · simpa using hzero
  | succ k ih =>
    have hlt : (k + 1) * 2 ^ resetChunkBits < 2 ^ 64 := lt_of_le_of_lt hk hc.size_lt
    have hchunk : k * 2 ^ resetChunkBits < 2 ^ c.capBlockSize := lt_of_lt_of_le (chunk_lt k) hk
    have hcleared := @clearedFrom_resetChunk slot c w k hc hk hzero
    have hzero1 := @zeroFrom_resetChunk slot c w k hc hk hzero
    have hcap1 := @cap_resetChunk slot c w (k * 2 ^ resetChunkBits)
    have hloop := fun fuel => @resetLoop_chunk slot c w k fuel hlt
    rw [chunk_wraps hlt, if_neg (by omega), Nat.add_sub_cancel,
      resetChunks_chunk (lt_of_lt_of_le (Nat.add_lt_add_left hchunk _) hc.top)]
    have hkernel := preemptionPoint_kernel (resetNth slot c k w)
    generalize preemptionPoint (resetNth slot c k w) = r at hkernel hloop
    obtain ⟨preempted, w₁⟩ := r
    cases preempted with
    | true =>
      refine ⟨_, .preempted, w₁, fun fuel hfuel => ?_, rfl,
        .single (hoffset k rfl) hcleared hkernel⟩
      obtain ⟨fuel, rfl⟩ : ∃ n, fuel = n + 1 := ⟨fuel - 1, by omega⟩
      exact hloop fuel
    | false =>
      rw [← hkernel] at hzero1 hcap1
      obtain ⟨points, status, w', hrest, hchunks, hspec⟩ := @ih w₁ (k * 2 ^ resetChunkBits)
        (by rintro j rfl; exact chunk_lt j) hchunk.le
        (by rintro rfl; simpa [offsetToFreeIndex] using hcap1) hzero1
      refine ⟨_, status, w', fun fuel hfuel => ?_, hchunks, hspec.cons (hoffset k rfl) hcleared⟩
      obtain ⟨fuel, rfl⟩ : ∃ n, fuel = n + 1 := ⟨fuel - 1, by omega⟩
      refine (hloop fuel).trans ?_
      rw [hrest fuel (by omega)]
      rfl

theorem ZeroFrom.mono {s : Kernel} {m n : Nat} (h : ZeroFrom c m s) (hmn : m ≤ n) :
    ZeroFrom c n s :=
  fun a ha hlast => h a (le_trans (Nat.add_le_add_left hmn _) ha) hlast

/-- **A call of `resetUntypedCap` returns**, and does what the loop over the chunks does. -/
theorem resetUntypedCapWords_spec (hc : c.WellFormed)
    (hdevice : c.capIsDevice = false) (hcap : w.kernel.cap slot = .untyped c)
    (hzero : ZeroFrom c (c.capFreeIndex * 2 ^ minUntypedBits) w.kernel) :
    ∃ points status w',
      (∀ fuel, 2 ^ c.capBlockSize < fuel →
        resetUntypedCapWords fuel slot c w = .ok (points, status, w')) ∧
      resetUntypedCap slot c w = (status, w') ∧
      ResetSpec slot c (c.capFreeIndex * 2 ^ minUntypedBits) points status w' := by
  have hfree := hc.free
  have hoffset : freeIndexToOffset c.capFreeIndex = c.capFreeIndex * 2 ^ minUntypedBits :=
    Nat.mod_eq_of_lt (lt_of_le_of_lt hfree hc.size_lt)
  simp only [resetUntypedCapWords]
  rw [resetUntypedCap, hoffset]
  generalize hoff : c.capFreeIndex * 2 ^ minUntypedBits = offset at hfree hzero ⊢
  by_cases hstart : offset = 0
  · simp only [if_pos hstart]
    have hindex : c = { c with capFreeIndex := 0 } := by
      have h0 : c.capFreeIndex = 0 := by
        rw [hstart] at hoff
        exact (Nat.mul_eq_zero.mp hoff).resolve_right (Nat.two_pow_pos _).ne'
      rw [← h0]
    refine ⟨[], .none, w, fun _ _ => rfl, rfl, by simp, by simp, .nil, nofun, fun _ => ⟨?_, ?_⟩⟩
    · rw [← hindex]
      exact hcap
    · rwa [hstart] at hzero
  by_cases hsmall : c.capBlockSize < resetChunkBits
  · have hbranch : c.capIsDevice = true ∨ c.capBlockSize < resetChunkBits := .inr hsmall
    simp only [if_neg hstart, if_pos hbranch]
    refine ⟨[], .none, _, fun _ _ => rfl, rfl, by simp, by simp, .nil, nofun, fun _ => ⟨?_, ?_⟩⟩
    · exact Function.update_self ..
    · intro a hfrom hlast
      rw [hdevice]
      exact if_pos ⟨hfrom, hlast⟩
  · have hbranch : ¬(c.capIsDevice = true ∨ c.capBlockSize < resetChunkBits) := by
      simp [hdevice, hsmall]
    simp only [if_neg hstart, if_neg hbranch]
    -- The untyped is a whole number of chunks, so the last chunk is inside it.
    obtain ⟨n, hn⟩ : 2 ^ resetChunkBits ∣ 2 ^ c.capBlockSize := pow_dvd_pow 2 (by omega)
    have hchunk : 2 ^ resetChunkBits = 256 := rfl
    have hsize := hc.size_lt
    rw [hchunk] at hn ⊢
    have hspec := @resetLoop_spec slot c w hc ((offset - 1) / 256 + 1) offset
      (by rw [hchunk]; omega) (by rw [hchunk]; omega) (by omega)
      (hzero.mono (by rw [hchunk]; omega))
    rw [chunk_wraps (by rw [hchunk]; omega), if_neg (by omega), Nat.add_sub_cancel] at hspec
    obtain ⟨points, status, w', hloop, hrest⟩ := hspec
    exact ⟨points, status, w', fun fuel hfuel => hloop fuel (by omega), hrest⟩

/-! ### Calls after preemptions -/

/-- The capability in the slot and the memory of the untyped are the same. -/
def SameUntyped (slot : Slot) (c : UntypedCap) (s s' : Kernel) : Prop :=
  s'.cap slot = s.cap slot ∧ ∀ a, c.capPtr ≤ a → a < c.last → s'.memory a = s.memory a

/-- `n` calls, each of which was preempted. Between the calls the kernel may do anything
that leaves the untyped alone. -/
inductive Reinvoked (slot : Slot) : Nat → Kernel → Kernel → Prop
  | refl (s : Kernel) : Reinvoked slot 0 s s
  | tail {n : Nat} {s s₁ s₂ : Kernel} {c : UntypedCap} {answers : List Bool} {w : Work}
      (prior : Reinvoked slot n s s₁) (hcap : s₁.cap slot = .untyped c)
      (hcall : resetUntypedCap slot c { kernel := s₁, preempt := answers } = (.preempted, w))
      (hsame : SameUntyped slot c w.kernel s₂) : Reinvoked slot (n + 1) s s₂

/-- What is known of the untyped after `n` preempted calls. -/
structure Progress (slot : Slot) (c : UntypedCap) (n : Nat) (s : Kernel) (c₁ : UntypedCap) :
    Prop where
  cap : s.cap slot = .untyped c₁
  same : c₁ = { c with capFreeIndex := c₁.capFreeIndex }
  count : n + c₁.capFreeIndex ≤ c.capFreeIndex
  zero : ZeroFrom c (c₁.capFreeIndex * 2 ^ minUntypedBits) s

theorem Progress.wellFormed {c₁ : UntypedCap} {n : Nat} {s : Kernel}
    (h : Progress slot c n s c₁) (hc : c.WellFormed) : c₁.WellFormed := by
  have hfree : c₁.capFreeIndex * 2 ^ minUntypedBits ≤ 2 ^ c.capBlockSize :=
    le_trans (Nat.mul_le_mul_right _ (by have := h.count; omega)) hc.free
  rw [h.same]
  exact ⟨hc.bits, hc.aligned, hc.top, hfree⟩

/-- The step lemma: a preempted call makes progress. -/
theorem Progress.call {c₁ : UntypedCap} {n : Nat} {s s' : Kernel} {answers : List Bool}
    (h : Progress slot c n s c₁) (hc : c.WellFormed) (hdevice : c.capIsDevice = false)
    (hcall : resetUntypedCap slot c₁ { kernel := s, preempt := answers } = (.preempted, w))
    (hsame : SameUntyped slot c₁ w.kernel s') : ∃ c2, Progress slot c (n + 1) s' c2 := by
  have hptr : c₁.capPtr = c.capPtr := by rw [h.same]
  have hsize : c₁.last = c.last := by rw [h.same]; rfl
  have hzero : ZeroFrom c₁ (c₁.capFreeIndex * 2 ^ minUntypedBits) s := by
    rw [ZeroFrom, hptr, hsize]
    exact h.zero
  obtain ⟨points, status, w', -, hreset, hspec⟩ := resetUntypedCapWords_spec
    (w := { kernel := s, preempt := answers }) (h.wellFormed hc) (by rw [h.same]; exact hdevice)
    h.cap hzero
  rw [hcall] at hreset
  cases hreset
  have hlast := List.mem_of_getLast? (hspec.preempted rfl)
  obtain ⟨freeIndex, hcap, hclear⟩ := hspec.cleared _ hlast
  have hbelow := hspec.below _ hlast
  rw [freeOffset_eq hcap] at hbelow
  have hlt : freeIndex < c₁.capFreeIndex := Nat.lt_of_mul_lt_mul_right hbelow
  refine ⟨{ c₁ with capFreeIndex := freeIndex }, hsame.1.trans hcap, ?_, ?_, ?_⟩
  · rw [h.same]
  · have := h.count
    dsimp only
    omega
  · intro a hfrom hend
    rw [← hptr] at hfrom
    rw [← hsize] at hend
    rw [hsame.2 a (le_trans (Nat.le_add_right ..) hfrom) hend]
    exact hclear a hfrom hend

/-- The run lemma. -/
theorem Reinvoked.progress {n : Nat} {s s₁ : Kernel} (hrun : Reinvoked slot n s s₁)
    (hc : c.WellFormed) (hdevice : c.capIsDevice = false) (hcap : s.cap slot = .untyped c)
    (hzero : ZeroFrom c (c.capFreeIndex * 2 ^ minUntypedBits) s) :
    ∃ c₁, Progress slot c n s₁ c₁ := by
  induction hrun with
  | refl s => exact ⟨c, hcap, rfl, by omega, hzero⟩
  | tail prior hcap1 hcall hsame ih =>
    obtain ⟨c₁, h⟩ := ih hcap hzero
    rw [h.cap] at hcap1
    cases hcap1
    exact h.call hc hdevice hcall hsame

/-- **Main result.** After any number of preempted calls, which is at most the free index,
the next call returns. The memory is clear from the free offset on at each of its preemption
points, the free offset goes down from each to the next, and when it returns without being
preempted the free index is zero and the whole untyped is clear. -/
theorem reset_clears {n : Nat} {s s₁ : Kernel} (hc : c.WellFormed)
    (hdevice : c.capIsDevice = false) (hcap : s.cap slot = .untyped c)
    (hzero : ZeroFrom c (c.capFreeIndex * 2 ^ minUntypedBits) s) (hrun : Reinvoked slot n s s₁) :
    ∃ c₁, s₁.cap slot = .untyped c₁ ∧ c₁ = { c with capFreeIndex := c₁.capFreeIndex } ∧
      n + c₁.capFreeIndex ≤ c.capFreeIndex ∧
      ∀ answers, ∃ points status w,
        (∀ fuel, 2 ^ c.capBlockSize < fuel →
          resetUntypedCapWords fuel slot c₁ { kernel := s₁, preempt := answers } =
            .ok (points, status, w)) ∧
        resetUntypedCap slot c₁ { kernel := s₁, preempt := answers } = (status, w) ∧
        (∀ p ∈ points, ClearedFrom slot c p) ∧
        (s₁ :: points).Pairwise (fun p q => freeOffset slot q < freeOffset slot p) ∧
        (status = .preempted → points.getLast? = some w.kernel) ∧
        (status = .none →
          w.kernel.cap slot = .untyped { c with capFreeIndex := 0 } ∧ ZeroFrom c 0 w.kernel) := by
  obtain ⟨c₁, h⟩ := hrun.progress hc hdevice hcap hzero
  refine ⟨c₁, h.cap, h.same, h.count, fun answers => ?_⟩
  obtain ⟨freeIndex, rfl⟩ : ∃ freeIndex, c₁ = { c with capFreeIndex := freeIndex } := ⟨_, h.same⟩
  obtain ⟨points, status, w, hwords, hreset, hspec⟩ := resetUntypedCapWords_spec
    (w := { kernel := s₁, preempt := answers }) (h.wellFormed hc) hdevice h.cap h.zero
  refine ⟨points, status, w, hwords, hreset, hspec.cleared, ?_, hspec.preempted, hspec.none⟩
  refine List.pairwise_cons.mpr ⟨fun q hq => ?_, hspec.decreasing⟩
  rw [freeOffset_eq h.cap]
  exact hspec.below q hq

/-- An untyped of two chunks, with objects in the first one and in a part of the second. -/
def twoChunks : UntypedCap :=
  { capFreeIndex := 20, capIsDevice := false, capBlockSize := 9, capPtr := 1024 }

def twoChunksState : Kernel :=
  { capState with
    cspace := (capState.cspace.setCap { base := 50, index := 2 } (.untyped twoChunks))
    memory := fun a => if a < 1344 then 1 else 0 }

/-- The call is preempted after the second chunk, and the next one clears the first. -/
theorem twoChunks_cleared :
    ∃ w c₁, resetUntypedCap { base := 50, index := 2 } twoChunks
        { kernel := twoChunksState, preempt := [true] } = (.preempted, w) ∧
      w.kernel.cap { base := 50, index := 2 } = .untyped c₁ ∧
      1 + c₁.capFreeIndex ≤ 20 ∧
      ∃ status w', resetUntypedCap { base := 50, index := 2 } c₁
          { kernel := w.kernel, preempt := [] } = (status, w') ∧
        (status = .none → ZeroFrom twoChunks 0 w'.kernel) := by
  have hcall : resetUntypedCap { base := 50, index := 2 } twoChunks
      { kernel := twoChunksState, preempt := [true] } =
        (.preempted, (resetUntypedCap { base := 50, index := 2 } twoChunks
          { kernel := twoChunksState, preempt := [true] }).2) := rfl
  have hcap : twoChunksState.cap { base := 50, index := 2 } = .untyped twoChunks := by
    decide +kernel
  have hzero : ZeroFrom twoChunks (twoChunks.capFreeIndex * 2 ^ minUntypedBits)
      twoChunksState := by
    intro a hfrom _
    exact if_neg (not_lt.mpr hfrom)
  obtain ⟨c₁, hcap1, -, hcount, hnext⟩ := reset_clears (c := twoChunks)
    (by constructor <;> decide) rfl hcap hzero
    ((Reinvoked.refl twoChunksState).tail hcap hcall ⟨rfl, fun _ _ _ => rfl⟩)
  obtain ⟨points, status, w', -, hreset, -, -, -, hnone⟩ := hnext []
  exact ⟨_, c₁, hcall, hcap1, hcount, status, w', hreset, fun h => (hnone h).2⟩

end SeL4Kernel
