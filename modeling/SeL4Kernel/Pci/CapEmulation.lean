import Mathlib.Data.Finset.Max

/-!
# Hiding the MSI capabilities of a PCI device

`pci_helper.c` of `libsel4vmmplatsupport`: the capabilities for message signalled interrupts of a
device are taken out of its capability list, and the guest is not to reach their registers.

An access is ignored only if it covers a whole range of 20 or 8 bytes, and no access has more than
four. So the guest reads and writes the registers of every MSI and MSI-X capability of the list
(`isolated_iff`).
-/

namespace SeL4Kernel.Pci

open Function

/-- A configuration space of plain bytes. -/
abbrev Device := ℕ → BitVec 8

def ioread (d : Device) (offset : ℕ) : ℕ → BitVec 32
  | 0 => 0
  | size + 1 => ioread d offset size ||| (d (offset + size)).setWidth 32 <<< (8 * size)

def iowrite (offset size : ℕ) (value : BitVec 32) (d : Device) : Device := fun i =>
  if offset ≤ i ∧ i < offset + size then (value >>> (8 * (i - offset))).setWidth 8 else d i

def pciStatus : ℕ := 0x06
def pciStatusCapList : BitVec 32 := 0x10
def pciHeaderType : ℕ := 0x0e
def pciCapabilityList : ℕ := 0x34

/-- `pci_cap_emulation_t`, with the starts and ends of the ignored ranges as pairs. -/
structure CapEmulation where
  caps : List (BitVec 8)
  ignore : List (BitVec 8 × BitVec 8)
  deriving DecidableEq

/-- The value of some bits is put into what has been read. -/
def patch (result mask value : BitVec 32) (bitOffset : ℕ) : BitVec 32 :=
  result &&& ~~~(mask <<< bitOffset) ||| value <<< bitOffset

def CapEmulation.ignored (emul : CapEmulation) (offset size : ℕ) : Bool :=
  emul.ignore.any fun r => offset ≤ r.1.toNat ∧ offset + size > r.2.toNat

/-- The loop over the capabilities whose pointer to the next one may be read. -/
def readCaps (d : Device) (offset size : ℕ) : List (BitVec 8) → BitVec 32
  | [] => ioread d offset size
  | cap :: caps =>
    if offset ≤ cap.toNat + 1 ∧ offset + size > cap.toNat + 1 then
      patch (ioread d offset size) 0xff ((caps.headD 0).setWidth 32)
        ((cap.toNat + 1 - offset) * 8)
    else readCaps d offset size caps

def pciCapEmulRead (emul : CapEmulation) (d : Device) (offset size : ℕ) : BitVec 32 :=
  if offset ≤ pciStatus ∧ offset + size > pciStatus then
    patch (ioread d offset size) pciStatusCapList
      (if emul.caps.length > 0 then pciStatusCapList else 0) ((pciStatus - offset) * 8)
  else if offset ≤ pciCapabilityList ∧ offset + size > pciCapabilityList then
    patch (ioread d offset size) 0xff ((emul.caps.headD 0).setWidth 32)
      ((pciCapabilityList - offset) * 8)
  else if emul.ignored offset size then 0
  else readCaps d offset size emul.caps

def pciCapEmulWrite (emul : CapEmulation) (offset size : ℕ) (value : BitVec 32) (d : Device) :
    Device :=
  if emul.ignored offset size then d else iowrite offset size value d

/-- The scan of the capability list. There is no result if an assertion fails, if there is no
place for a range, or if the list goes on. -/
def scanCaps (d : Device) : ℕ → BitVec 8 → CapEmulation → Option CapEmulation
  | 0, _, _ => none
  | fuel + 1, value, emul =>
    if value = 0 then some emul
    else
      let capType := d value.toNat
      let next := d (value.toNat + 1)
      if capType = 0x05 ∨ capType = 0x11 then
        if emul.ignore.length < 2 then
          scanCaps d fuel next { emul with
            ignore := emul.ignore ++ [(value, value + if capType = 0x05 then 20 else 8)] }
        else none
      else if emul.caps.length < 256 then
        scanCaps d fuel next { emul with caps := emul.caps ++ [value] }
      else none

/-- The entry for the guest, which is `none` for the device itself. -/
def vmmPciNoMsiCapEmulation (fuel : ℕ) (d : Device) : Option (Option CapEmulation) :=
  if d pciHeaderType &&& ~~~0x80 ≠ 0 then none
  else if (ioread d pciStatus 1) &&& pciStatusCapList = 0 then some none
  else do
    let emul ← scanCaps d fuel (d pciCapabilityList &&& ~~~3) ⟨[], []⟩
    some (if emul.ignore.length > 0 then some emul else none)

/-! ### Isolation -/

def entryRead (entry : Option CapEmulation) : Device → ℕ → ℕ → BitVec 32 :=
  entry.elim ioread pciCapEmulRead

def entryWrite (entry : Option CapEmulation) : ℕ → ℕ → BitVec 32 → Device → Device :=
  entry.elim iowrite pciCapEmulWrite

/-- The ranges that are recorded. -/
def ranges (entry : Option CapEmulation) : List (BitVec 8 × BitVec 8) :=
  entry.elim [] CapEmulation.ignore

/-- A byte of a range, behind its first `k` bytes. -/
def InRange (k : ℕ) (entry : Option CapEmulation) (i : ℕ) : Prop :=
  ∃ r ∈ ranges entry, r.1.toNat + k ≤ i ∧ i < r.1.toNat + (r.2 - r.1).toNat

/-- The guest of the device `d` does not see the ranges but for the identifiers and the pointers
to the next capabilities, and does not change them. -/
structure Isolated (d : Device) (entry : Option CapEmulation) : Prop where
  reads : ∀ d' : Device, (∀ i, ¬InRange 2 entry i → d i = d' i) → ∀ offset, ∀ size ∈ [1, 2, 4],
    entryRead entry d offset size = entryRead entry d' offset size
  writes : ∀ accesses : List (ℕ × ℕ × BitVec 32),
    (∀ a ∈ accesses, a.2.1 ∈ [1, 2, 4]) → ∀ i, InRange 0 entry i →
      accesses.foldl (fun d a => entryWrite entry a.1 a.2.1 a.2.2 d) d i = d i

/-- The capabilities from `value` on. -/
def capsFrom (d : Device) : ℕ → BitVec 8 → List (BitVec 8)
  | 0, _ => []
  | fuel + 1, value =>
    if value = 0 then [] else value :: capsFrom d fuel (d (value.toNat + 1))

/-- The capability list of a device. -/
def capabilities (fuel : ℕ) (d : Device) : List (BitVec 8) :=
  if ioread d pciStatus 1 &&& pciStatusCapList = 0 then []
  else capsFrom d fuel (d pciCapabilityList &&& ~~~3)

/-- The capability is for message signalled interrupts. -/
def IsMsi (d : Device) (cap : BitVec 8) : Prop := d cap.toNat = 0x05 ∨ d cap.toNat = 0x11

variable {d : Device} {fuel : ℕ} {value : BitVec 8} {emul emul' : CapEmulation}
  {entry : Option CapEmulation}

/-- The ranges have 8 bytes at least, and there is one for every such capability. -/
theorem scanCaps_ignore (hemul : ∀ r ∈ emul.ignore, 8 ≤ (r.2 - r.1).toNat)
    (h : scanCaps d fuel value emul = some emul') :
    (∀ r ∈ emul'.ignore, 8 ≤ (r.2 - r.1).toNat) ∧
      (emul'.ignore = [] ↔ emul.ignore = [] ∧ ∀ cap ∈ capsFrom d fuel value, ¬IsMsi d cap) := by
  induction fuel generalizing value emul with
  | zero => cases h
  | succ fuel ih =>
    unfold scanCaps at h
    rw [capsFrom]
    split at h
    · rename_i hend
      cases h
      rw [if_pos hend]
      exact ⟨hemul, by simp⟩
    rename_i hend
    rw [if_neg hend, List.forall_mem_cons]
    dsimp only at h
    split at h
    · rename_i hmsi
      split at h
      · have hsize : ∀ r ∈ emul.ignore ++ [(value, value + if d value.toNat = 0x05 then 20 else 8)],
            8 ≤ (r.2 - r.1).toNat := by
          intro r hr
          rcases List.mem_append.mp hr with hr | hr
          · exact hemul r hr
          · rw [List.mem_singleton.mp hr, BitVec.add_comm, BitVec.add_sub_cancel]
            split <;> decide
        obtain ⟨hle, hiff⟩ := ih (by exact hsize) h
        refine ⟨hle, hiff.trans (iff_of_false (fun hc => ?_) fun hc => hc.2.1 hmsi)⟩
        exact List.cons_ne_nil _ _ (List.append_eq_nil_iff.mp hc.1).2
      · cases h
    · rename_i hmsi
      split at h
      · obtain ⟨hle, hiff⟩ := ih (by exact hemul) h
        refine ⟨hle, hiff.trans (and_congr_right fun _ => ?_)⟩
        exact (and_iff_right hmsi).symm
      · cases h

theorem ranges_spec (h : vmmPciNoMsiCapEmulation fuel d = some entry) :
    (∀ r ∈ ranges entry, 8 ≤ (r.2 - r.1).toNat) ∧
      (ranges entry = [] ↔ ∀ cap ∈ capabilities fuel d, ¬IsMsi d cap) := by
  unfold vmmPciNoMsiCapEmulation at h
  unfold capabilities
  split at h
  · cases h
  split at h
  · rename_i hnone
    cases h
    rw [if_pos hnone]
    exact ⟨nofun, iff_of_true rfl nofun⟩
  rename_i hsome
  obtain ⟨emul, hscan, h⟩ := Option.bind_eq_some_iff.mp h
  obtain ⟨hle, hiff⟩ := scanCaps_ignore (by simp) hscan
  rw [if_neg hsome]
  split at h
  · cases h
    exact ⟨hle, hiff.trans (and_iff_right rfl)⟩
  · rename_i hempty
    cases h
    rw [Nat.not_lt, Nat.le_zero, List.length_eq_zero_iff] at hempty
    exact ⟨nofun, iff_of_true rfl (hiff.mp hempty).2⟩

/-- The lowest bits of the four bytes differ. -/
def BytesDiffer (x y : BitVec 32) : Prop := ∀ k < 4, x.getLsbD (k * 8) ≠ y.getLsbD (k * 8)

/-- A byte that is put into four does not hide the next one. -/
theorem patch_ne {k : ℕ} {x y : BitVec 32} (hk : k < 4) (h : BytesDiffer x y)
    (mask c : BitVec 8) :
    patch x (mask.setWidth 32) (c.setWidth 32) (k * 8) ≠
      patch y (mask.setWidth 32) (c.setWidth 32) (k * 8) := by
  intro hc
  have hbit := congrArg (BitVec.getLsbD · ((k + 1) % 4 * 8)) hc
  have hne := h ((k + 1) % 4) (Nat.mod_lt _ (by decide))
  obtain rfl | rfl | rfl | rfl : k = 0 ∨ k = 1 ∨ k = 2 ∨ k = 3 := by omega
  all_goals
    simp [patch] at hbit hne
    exact hne hbit

theorem readCaps_ne {d' : Device} {offset : ℕ}
    (h : BytesDiffer (ioread d offset 4) (ioread d' offset 4)) (caps : List (BitVec 8)) :
    readCaps d offset 4 caps ≠ readCaps d' offset 4 caps := by
  induction caps with
  | nil =>
    intro hc
    exact h 0 (by decide) (congrArg (BitVec.getLsbD · 0) hc)
  | cons cap caps ih =>
    rw [readCaps, readCaps]
    split
    · exact patch_ne (by omega) h 0xff _
    · exact ih

/-- An access behind the starts of all ranges is not ignored. -/
theorem pciCapEmulRead_ne {d' : Device} {offset : ℕ}
    (h : BytesDiffer (ioread d offset 4) (ioread d' offset 4))
    (hlast : ∀ r ∈ emul.ignore, r.1.toNat < offset) :
    pciCapEmulRead emul d offset 4 ≠ pciCapEmulRead emul d' offset 4 := by
  have hignored : emul.ignored offset 4 = false := by
    refine List.any_eq_false.mpr fun r hr => ?_
    have := hlast r hr
    simp only [decide_eq_true_eq]
    omega
  rw [pciCapEmulRead, pciCapEmulRead, hignored]
  unfold pciStatus pciCapabilityList
  split
  · split
    · exact patch_ne (by omega) h 0x10 0x10
    · exact patch_ne (by omega) h 0x10 0
  split
  · exact patch_ne (by omega) h 0xff _
  · exact readCaps_ne h emul.caps

/-- Another state of the device: the lowest bits of four bytes are the other way round. -/
def flipped (d : Device) (offset : ℕ) : Device := fun i =>
  if offset ≤ i ∧ i < offset + 4 then d i ^^^ 1 else d i

theorem ioread_flipped (d : Device) (offset : ℕ) :
    BytesDiffer (ioread d offset 4) (ioread (flipped d offset) offset 4) := by
  intro k hk
  obtain rfl | rfl | rfl | rfl : k = 0 ∨ k = 1 ∨ k = 2 ∨ k = 3 := by omega
  all_goals simp [ioread, flipped]

/-- **Main result.** The guest is kept from the capabilities for message signalled interrupts of
a device if its list has none, and only then. -/
theorem isolated_iff (h : vmmPciNoMsiCapEmulation fuel d = some entry) :
    Isolated d entry ↔ ∀ cap ∈ capabilities fuel d, ¬IsMsi d cap := by
  obtain ⟨hle, hiff⟩ := ranges_spec h
  rw [← hiff]
  constructor
  · intro hi
    by_contra hne
    cases entry with
    | none => exact hne rfl
    | some emul =>
      -- an access to four bytes of the last range
      obtain ⟨r, hr, hlast⟩ := emul.ignore.toFinset.exists_max_image (fun r => r.1.toNat)
        (List.toFinset_nonempty_iff _ |>.mpr hne)
      rw [List.mem_toFinset] at hr
      have hsize := hle r hr
      refine pciCapEmulRead_ne (ioread_flipped d (r.1.toNat + 2))
        (fun q hq => (hlast q (List.mem_toFinset.mpr hq)).trans_lt (by omega))
        (hi.reads _ (fun i hno => ?_) _ 4 (by decide))
      rw [flipped, if_neg]
      exact fun hin => hno ⟨r, hr, hin.1, by omega⟩
  · intro hnone
    have hno : ∀ k i, ¬InRange k entry i := by
      rintro k i ⟨r, hr, -⟩
      rw [hnone] at hr
      cases hr
    exact ⟨fun d' hd offset size _ => by rw [funext fun i => hd i (hno 2 i)],
      fun accesses _ i hi => absurd hi (hno 0 i)⟩

/-- A device with a capability of the given type, and power management behind it. -/
def twoCaps (capType : BitVec 8) : Device :=
  update (update (update (update (update (fun _ => 0) pciStatus 0x10) pciCapabilityList 0x40)
    0x40 capType) 0x41 0x60) 0x60 0x01

/-- The capabilities of a vendor and of power management are not hidden. -/
theorem power_management_isolated :
    vmmPciNoMsiCapEmulation 3 (twoCaps 0x09) = some none ∧ Isolated (twoCaps 0x09) none := by
  have h : vmmPciNoMsiCapEmulation 3 (twoCaps 0x09) = some none := by decide
  refine ⟨h, (isolated_iff h).mpr ?_⟩
  have hcaps : capabilities 3 (twoCaps 0x09) = [0x40, 0x60] := by decide
  rw [hcaps]
  unfold IsMsi
  decide

/-- The guest reads the message address of an MSI capability. -/
theorem msi_not_isolated :
    vmmPciNoMsiCapEmulation 3 (twoCaps 0x05) = some (some ⟨[0x60], [(0x40, 0x54)]⟩) ∧
      ¬Isolated (twoCaps 0x05) (some ⟨[0x60], [(0x40, 0x54)]⟩) := by
  refine ⟨by decide, fun h => ?_⟩
  have hread := h.reads (update (twoCaps 0x05) 0x44 1) ?_ 0x44 1 (by decide)
  · exact absurd hread (by decide)
  · intro i hno
    rw [update_of_ne]
    rintro rfl
    exact hno ⟨_, List.mem_cons_self, by decide, by decide⟩

end SeL4Kernel.Pci
