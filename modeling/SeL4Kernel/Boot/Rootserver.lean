import SeL4Kernel.Boot.Regions
import SeL4Kernel.Lib.Cuts
import SeL4Kernel.Object.Cap

/-!
# The objects of the root server

`calculate_rootserver_size` and `create_rootserver_objects` of `kernel/boot.c`: the objects are
taken from one piece of memory, the larger ones first, so that each is aligned. From memory
of that size, aligned for the largest object, all of them can be taken and nothing is left
(`rootserver_laid_out`). The memory must not start at address zero, since the code takes the
extra boot info for missing if it is there.
-/

namespace SeL4Kernel.Boot

def pageBits : ℕ := 12
def pageTableBits : ℕ := 12
def vspaceBits : ℕ := pageTableBits
def asidPoolBits : ℕ := 12

/-- The options that the boot depends on. A thread is smaller than a page table, and the
CNode of the root server is at least a page. -/
structure BootConfig where
  /-- `CONFIG_ROOT_CNODE_SIZE_BITS` -/
  rootCNodeSizeBits : ℕ
  /-- `seL4_TCBBits` -/
  tcbBits : ℕ
  /-- `seL4_MinSchedContextBits` where there are scheduling contexts -/
  minSchedContextBits : Option ℕ
  /-- the number of devices the kernel maps -/
  kernelDevices : ℕ
  cnode_lt : rootCNodeSizeBits < 32 - slotBits
  page_le_cnode : pageBits ≤ rootCNodeSizeBits + slotBits
  tcb_lt : tcbBits < pageTableBits
  sched_le : ∀ b ∈ minSchedContextBits, b ≤ tcbBits

variable (cfg : BootConfig) {base stop bits rest sizeBits n extraBiSizeBits extraBi : ℕ}
  {mem vReg : Region} {l l' : List Region}

def BootConfig.cnodeSizeBits : ℕ := cfg.rootCNodeSizeBits + slotBits

/-- `ROUND_DOWN`. -/
def roundDown (n b : ℕ) : ℕ := n / 2 ^ b * 2 ^ b

/-- `ROUND_UP`. -/
def roundUp (n b : ℕ) : ℕ := word ((wordSub n 1 / 2 ^ b + 1) * 2 ^ b)

def getNPaging (vReg : Region) (bits : ℕ) : ℕ :=
  wordSub (roundUp vReg.stop bits) (roundDown vReg.start bits) / 2 ^ bits

/-- `arch_get_n_paging`, over the two levels that are not the first. -/
def archGetNPaging (itVReg : Region) : ℕ := getNPaging itVReg 30 + getNPaging itVReg 21

def rootserverMaxSizeBits (extraBiSizeBits : ℕ) : ℕ :=
  max (max cfg.cnodeSizeBits vspaceBits) extraBiSizeBits

/-- The size of the scheduling context of the root thread, if there is one. -/
def BootConfig.schedContextSize : ℕ :=
  match cfg.minSchedContextBits with
  | some bits => 2 ^ bits
  | none => 0

def extraBiSize (extraBiSizeBits : ℕ) : ℕ := if extraBiSizeBits > 0 then 2 ^ extraBiSizeBits else 0

def calculateRootserverSize (vReg : Region) (extraBiSizeBits : ℕ) : ℕ :=
  word (2 ^ cfg.cnodeSizeBits + 2 ^ cfg.tcbBits + 2 * 2 ^ pageBits + 2 ^ asidPoolBits +
    extraBiSize extraBiSizeBits + 2 ^ vspaceBits + cfg.schedContextSize +
    archGetNPaging vReg * 2 ^ pageTableBits)

/-! ### Taking objects -/

/-- `alloc_rootserver_obj`: the object and what is left of `rootserver_mem`. -/
def allocRootserverObj (sizeBits n : ℕ) (mem : Region) : Except Failure (ℕ × Region) := do
  assert (mem.start % 2 ^ sizeBits = 0)
  let start := word (mem.start + n * 2 ^ sizeBits)
  assert (start ≤ mem.stop)
  return (mem.start, { mem with start })

/-- `maybe_alloc_extra_bi` with the extra boot info so far. -/
def maybeAllocExtraBi (cmpSizeBits extraBiSizeBits extraBi : ℕ) (mem : Region) :
    Except Failure (ℕ × Region) :=
  if extraBiSizeBits ≥ cmpSizeBits ∧ extraBi = 0 then allocRootserverObj extraBiSizeBits 1 mem
  else .ok (extraBi, mem)

/-- `rootserver_mem_t`. -/
structure Rootserver where
  extraBi : ℕ
  cnode : ℕ
  vspace : ℕ
  asidPool : ℕ
  ipcBuf : ℕ
  bootInfo : ℕ
  tcb : ℕ
  paging : Region
  sc : ℕ
  deriving DecidableEq, Repr

/-- The CNode and the address space, the larger one first, with the extra boot info where it
comes in their order. -/
def allocSpaces (extraBiSizeBits extraBi : ℕ) (mem : Region) :
    Except Failure (ℕ × ℕ × ℕ × Region) :=
  if cfg.cnodeSizeBits > vspaceBits then do
    let (cnode, mem) ← allocRootserverObj cfg.cnodeSizeBits 1 mem
    let (extraBi, mem) ← maybeAllocExtraBi vspaceBits extraBiSizeBits extraBi mem
    let (vspace, mem) ← allocRootserverObj vspaceBits 1 mem
    return (cnode, vspace, extraBi, mem)
  else do
    let (vspace, mem) ← allocRootserverObj vspaceBits 1 mem
    let (extraBi, mem) ← maybeAllocExtraBi cfg.cnodeSizeBits extraBiSizeBits extraBi mem
    let (cnode, mem) ← allocRootserverObj cfg.cnodeSizeBits 1 mem
    return (cnode, vspace, extraBi, mem)

/-- The scheduling context of the root thread. -/
def allocSchedContext (mem : Region) : Except Failure (ℕ × Region) :=
  match cfg.minSchedContextBits with
  | some bits => allocRootserverObj bits 1 mem
  | none => .ok (0, mem)

def createRootserverObjects (start : ℕ) (vReg : Region) (extraBiSizeBits : ℕ) :
    Except Failure Rootserver := do
  let max := rootserverMaxSizeBits cfg extraBiSizeBits
  let size := calculateRootserverSize cfg vReg extraBiSizeBits
  let mem : Region := ⟨start, word (start + size)⟩
  let (extraBi, mem) ← maybeAllocExtraBi max extraBiSizeBits 0 mem
  let (cnode, vspace, extraBi, mem) ← allocSpaces cfg extraBiSizeBits extraBi mem
  let (extraBi, mem) ← maybeAllocExtraBi pageBits extraBiSizeBits extraBi mem
  let (asidPool, mem) ← allocRootserverObj asidPoolBits 1 mem
  let (ipcBuf, mem) ← allocRootserverObj pageBits 1 mem
  let (bootInfo, mem) ← allocRootserverObj pageBits 1 mem
  let n := archGetNPaging vReg
  let (paging, mem) ← allocRootserverObj pageTableBits n mem
  let (tcb, mem) ← allocRootserverObj cfg.tcbBits 1 mem
  let (sc, mem) ← allocSchedContext cfg mem
  assert (mem.start = mem.stop)
  return { extraBi, cnode, vspace, asidPool, ipcBuf, bootInfo, tcb,
           paging := ⟨paging, word (paging + n * 2 ^ pageTableBits)⟩, sc }

/-- The memory of the objects. -/
def Rootserver.objects (vReg : Region) (extraBiSizeBits : ℕ) (rs : Rootserver) : List Region :=
  [⟨rs.extraBi, rs.extraBi + extraBiSize extraBiSizeBits⟩,
   ⟨rs.cnode, rs.cnode + 2 ^ cfg.cnodeSizeBits⟩, ⟨rs.vspace, rs.vspace + 2 ^ vspaceBits⟩,
   ⟨rs.asidPool, rs.asidPool + 2 ^ asidPoolBits⟩, ⟨rs.ipcBuf, rs.ipcBuf + 2 ^ pageBits⟩,
   ⟨rs.bootInfo, rs.bootInfo + 2 ^ pageBits⟩, ⟨rs.tcb, rs.tcb + 2 ^ cfg.tcbBits⟩,
   ⟨rs.paging.start, rs.paging.start + archGetNPaging vReg * 2 ^ pageTableBits⟩,
   ⟨rs.sc, rs.sc + cfg.schedContextSize⟩]

/-! ### All of them fit -/

/-- What is left of the memory from `base` to `stop`: `rest` bytes, aligned to `bits`. -/
structure Room (base stop bits rest : ℕ) (mem : Region) : Prop where
  base_le : base ≤ mem.start
  start_add : mem.start + rest = stop
  stop_eq : mem.stop = stop
  aligned : 2 ^ bits ∣ mem.start

/-- The objects `l` are what has been taken from the memory. -/
structure Taken (base stop bits rest : ℕ) (l : List Region) (mem : Region) : Prop extends
    Room base stop bits rest mem where
  cuts : Cuts l (· ∈ (⟨base, mem.start⟩ : Region))

theorem Taken.weaken (h : Taken base stop bits rest l mem) (hle : sizeBits ≤ bits) :
    Taken base stop sizeBits rest l mem :=
  { h with aligned := Nat.dvd_trans (Nat.pow_dvd_pow 2 hle) h.aligned }

theorem Taken.perm (h : Taken base stop bits rest l mem) (hp : l.Perm l') :
    Taken base stop bits rest l' mem :=
  { h with cuts := h.cuts.perm hp }

/-- Objects that are no larger than the alignment are taken from the start. -/
theorem allocRootserverObj_spec (hstop : stop < 2 ^ 64)
    (h : Taken base stop bits (n * 2 ^ sizeBits + rest) l mem) (hle : sizeBits ≤ bits) :
    ∃ mem', allocRootserverObj sizeBits n mem = .ok (mem.start, mem') ∧
      Taken base stop sizeBits rest (⟨mem.start, mem.start + n * 2 ^ sizeBits⟩ :: l) mem' ∧
      2 ^ sizeBits ∣ mem.start := by
  have hadd := h.start_add
  have halign := (h.weaken hle).aligned
  have hword : word (mem.start + n * 2 ^ sizeBits) = mem.start + n * 2 ^ sizeBits := by
    exact Nat.mod_eq_of_lt (by omega)
  refine ⟨{ mem with start := mem.start + n * 2 ^ sizeBits }, ?_, ⟨⟨?_, ?_, h.stop_eq, ?_⟩,
    h.cuts.extend h.base_le (Nat.le_add_right _ _)⟩, halign⟩
  · have hfits : mem.start + n * 2 ^ sizeBits ≤ mem.stop := by
      rw [h.stop_eq]
      omega
    unfold allocRootserverObj
    rw [assert_eq (Nat.mod_eq_zero_of_dvd halign), hword]
    dsimp only [bind, Except.bind]
    rw [assert_eq hfits]
    rfl
  · exact le_trans h.base_le (Nat.le_add_right _ _)
  · dsimp only
    omega
  · exact Nat.dvd_add halign (Nat.dvd_mul_left _ _)

theorem allocRootserverObj_one (hstop : stop < 2 ^ 64)
    (h : Taken base stop bits (2 ^ sizeBits + rest) l mem) (hle : sizeBits ≤ bits) :
    ∃ mem', allocRootserverObj sizeBits 1 mem = .ok (mem.start, mem') ∧
      Taken base stop sizeBits rest (⟨mem.start, mem.start + 2 ^ sizeBits⟩ :: l) mem' ∧
      2 ^ sizeBits ∣ mem.start := by
  have halloc := allocRootserverObj_spec (n := 1) hstop (by rwa [Nat.one_mul]) hle
  rwa [Nat.one_mul] at halloc

theorem maybeAllocExtraBi_skip {cmpSizeBits : ℕ} (h : extraBiSizeBits < cmpSizeBits ∨ extraBi ≠ 0) :
    maybeAllocExtraBi cmpSizeBits extraBiSizeBits extraBi mem = .ok (extraBi, mem) := by
  refine if_neg ?_
  rintro ⟨hle, heq⟩
  rcases h with h | h
  · omega
  · exact h heq

/-- Where the extra boot info is, if there is any: it has its place already, or its size is
still to be taken. -/
inductive ExtraBi (base stop extraBiSizeBits : ℕ) : ℕ → ℕ → Prop
  | absent (h : extraBiSizeBits = 0) : ExtraBi base stop extraBiSizeBits 0 0
  | placed {extraBi : ℕ} (hpos : extraBi ≠ 0) (hle : base ≤ extraBi)
      (hstop : extraBi + 2 ^ extraBiSizeBits ≤ stop) : ExtraBi base stop extraBiSizeBits extraBi 0
  | pending (hpos : 0 < extraBiSizeBits) :
      ExtraBi base stop extraBiSizeBits 0 (2 ^ extraBiSizeBits)

/-- An object inside the memory from `base` to `stop`. -/
def Held (base stop size obj : ℕ) : Prop := base ≤ obj ∧ obj + size ≤ stop

theorem ExtraBi.of_done {pending : ℕ} (h : ExtraBi base stop extraBiSizeBits extraBi pending)
    (hdone : pending = 0) : extraBiSizeBits = 0 ∧ extraBi = 0 ∨
      extraBi ≠ 0 ∧ Held base stop (2 ^ extraBiSizeBits) extraBi := by
  cases h with
  | absent h0 => exact .inl ⟨h0, rfl⟩
  | placed hpos hle hstop => exact .inr ⟨hpos, hle, hstop⟩
  | pending _ => exact absurd hdone (Nat.two_pow_pos _).ne'

/-- The memory of the extra boot info, which is nothing as long as it has no place. -/
abbrev extraRegion (extraBiSizeBits extraBi pending : ℕ) : Region :=
  ⟨extraBi, extraBi + (extraBiSize extraBiSizeBits - pending)⟩

/-- One chance to place the extra boot info, before objects of size `cmpSizeBits`. -/
theorem maybeAllocExtraBi_spec {cmpSizeBits pending : ℕ} (hstop : stop < 2 ^ 64) (hbase : 0 < base)
    (h : Taken base stop bits (pending + rest) (extraRegion extraBiSizeBits extraBi pending :: l)
      mem)
    (he : ExtraBi base stop extraBiSizeBits extraBi pending) (hcmp : 0 < cmpSizeBits)
    (hbits : cmpSizeBits ≤ bits) (hlarge : pending ≠ 0 → extraBiSizeBits ≤ bits)
    (hdvd : 2 ^ extraBiSizeBits ∣ extraBi ∧ (extraBiSizeBits = 0 → extraBi = 0)) :
    ∃ extraBi' pending' mem', maybeAllocExtraBi cmpSizeBits extraBiSizeBits extraBi mem =
        .ok (extraBi', mem') ∧
      Taken base stop cmpSizeBits (pending' + rest)
        (extraRegion extraBiSizeBits extraBi' pending' :: l) mem' ∧
      ExtraBi base stop extraBiSizeBits extraBi' pending' ∧
      (2 ^ extraBiSizeBits ∣ extraBi' ∧ (extraBiSizeBits = 0 → extraBi' = 0)) ∧
      (pending' ≠ 0 → extraBiSizeBits < cmpSizeBits ∧ pending' = pending) := by
  cases he with
  | absent h0 =>
    exact ⟨0, 0, mem, maybeAllocExtraBi_skip (.inl (by omega)), h.weaken hbits, .absent h0, hdvd,
      fun hne => absurd rfl hne⟩
  | placed hpos hle hfit =>
    exact ⟨_, 0, mem, maybeAllocExtraBi_skip (.inr hpos), h.weaken hbits, .placed hpos hle hfit,
      hdvd, fun hne => absurd rfl hne⟩
  | pending hpos =>
    by_cases hcase : cmpSizeBits ≤ extraBiSizeBits
    · have hne : 2 ^ extraBiSizeBits ≠ 0 := (Nat.two_pow_pos _).ne'
      have hsize : extraBiSize extraBiSizeBits = 2 ^ extraBiSizeBits := if_pos hpos
      obtain ⟨mem', heq, htaken, halign⟩ := allocRootserverObj_one hstop h (hlarge hne)
      have hb := h.base_le
      have ha := h.start_add
      refine ⟨mem.start, 0, mem', ?_, ?_, .placed (by omega) hb (by omega),
        ⟨halign, fun h0 => absurd h0 hpos.ne'⟩, fun hne => absurd rfl hne⟩
      · unfold maybeAllocExtraBi
        rw [if_pos ⟨hcase, rfl⟩, heq]
      · rw [Nat.zero_add, extraRegion, Nat.sub_zero, hsize]
        refine { htaken.weaken hcase with cuts := ?_ }
        -- where the extra boot info had no place there is nothing
        have hcuts := htaken.cuts.perm (.swap ..)
        rw [extraRegion, hsize, Nat.sub_self] at hcuts
        exact Cuts.cons_self_iff.1 hcuts
    · exact ⟨0, _, mem, maybeAllocExtraBi_skip (.inl (by omega)), h.weaken hbits,
        .pending hpos, hdvd, fun _ => ⟨by omega, rfl⟩⟩

/-- The CNode, the address space and the extra boot info. -/
theorem allocSpaces_spec {pending : ℕ} (hstop : stop < 2 ^ 64) (hbase : 0 < base)
    (h : Taken base stop (max cfg.cnodeSizeBits vspaceBits)
      (2 ^ cfg.cnodeSizeBits + 2 ^ vspaceBits + pending + rest)
      [extraRegion extraBiSizeBits extraBi pending] mem)
    (he : ExtraBi base stop extraBiSizeBits extraBi pending)
    (hlarge : pending ≠ 0 → vspaceBits ≤ extraBiSizeBits ∧
      extraBiSizeBits < max cfg.cnodeSizeBits vspaceBits)
    (hdvd : 2 ^ extraBiSizeBits ∣ extraBi ∧ (extraBiSizeBits = 0 → extraBi = 0)) :
    ∃ cnode vspace extraBi' mem', allocSpaces cfg extraBiSizeBits extraBi mem =
        .ok (cnode, vspace, extraBi', mem') ∧
      Taken base stop pageBits rest [⟨vspace, vspace + 2 ^ vspaceBits⟩,
        ⟨cnode, cnode + 2 ^ cfg.cnodeSizeBits⟩, extraRegion extraBiSizeBits extraBi' 0] mem' ∧
      ExtraBi base stop extraBiSizeBits extraBi' 0 ∧
      (2 ^ extraBiSizeBits ∣ extraBi' ∧ (extraBiSizeBits = 0 → extraBi' = 0)) ∧
      2 ^ cfg.cnodeSizeBits ∣ cnode ∧ 2 ^ vspaceBits ∣ vspace := by
  have hpage := cfg.page_le_cnode
  by_cases hcase : cfg.cnodeSizeBits > vspaceBits
  · rw [max_eq_left hcase.le] at h hlarge
    have h1 : Taken base stop cfg.cnodeSizeBits
        (2 ^ cfg.cnodeSizeBits + (pending + (2 ^ vspaceBits + rest))) _ mem :=
      { h with start_add := by have := h.start_add; omega }
    obtain ⟨mem1, heq1, htaken1, hcnode⟩ := allocRootserverObj_one hstop h1 (le_refl _)
    obtain ⟨extra, pending', mem2, heq2, htaken2, hextra, hdvd', hdone⟩ :=
      maybeAllocExtraBi_spec hstop hbase (htaken1.perm (.swap ..)) he
        (show 0 < vspaceBits by decide) hcase.le (fun hne => (hlarge hne).2.le) hdvd
    have hnone : pending' = 0 := by
      by_contra hne
      obtain ⟨hlt, rfl⟩ := hdone hne
      exact absurd (hlarge hne).1 (not_le_of_gt hlt)
    rw [hnone] at htaken2 hextra
    rw [Nat.zero_add] at htaken2
    obtain ⟨mem3, heq3, htaken3, hvspace⟩ := allocRootserverObj_one hstop htaken2 (le_refl _)
    refine ⟨mem.start, mem2.start, extra, mem3, ?_,
      (htaken3.weaken (by decide)).perm (.cons _ (.swap ..)), hextra, hdvd', hcnode, hvspace⟩
    simp only [allocSpaces, if_pos hcase, heq1, heq2, heq3, bind, Except.bind]
    rfl
  · -- the CNode is as large as a page table, and so is everything before it
    have hsize : cfg.cnodeSizeBits = vspaceBits := by
      unfold BootConfig.cnodeSizeBits vspaceBits pageTableBits pageBits at *
      omega
    have hnone : pending = 0 := by
      by_contra hne
      omega
    rw [hnone] at h he
    rw [hsize] at h
    have h1 : Taken base stop vspaceBits (2 ^ vspaceBits + (2 ^ vspaceBits + rest)) _ mem :=
      { h with start_add := by have := h.start_add; omega }
    obtain ⟨mem1, heq1, htaken1, hvspace⟩ := allocRootserverObj_one hstop h1 (le_refl _)
    obtain ⟨mem3, heq3, htaken3, hcnode⟩ := allocRootserverObj_one hstop htaken1 (le_refl _)
    have hskip : maybeAllocExtraBi cfg.cnodeSizeBits extraBiSizeBits extraBi mem1 =
        .ok (extraBi, mem1) := by
      refine maybeAllocExtraBi_skip ?_
      rcases he.of_done rfl with ⟨h0, _⟩ | ⟨hpos, _⟩
      · left
        rw [hsize, h0]
        decide
      · exact .inr hpos
    rw [← hsize] at heq3
    refine ⟨mem1.start, mem.start, extraBi, mem3, ?_, ?_, he, hdvd, by rwa [hsize], hvspace⟩
    · simp only [allocSpaces, if_neg hcase, heq1, hskip, heq3, bind, Except.bind]
      rfl
    · rw [hsize]
      exact (htaken3.weaken (by decide)).perm (.swap ..)

/-- The sizes that `calculate_extra_bi_size_bits` returns: nothing, or whole pages. -/
def ExtraBits (extraBiSizeBits : ℕ) : Prop :=
  extraBiSizeBits = 0 ∨ pageBits ≤ extraBiSizeBits ∧ extraBiSizeBits < 64

instance : Decidable (ExtraBits n) := inferInstanceAs (Decidable (_ ∨ _))

theorem getNPaging_lt : getNPaging vReg bits ≤ 2 ^ 64 / 2 ^ bits := by
  exact Nat.div_le_div_right (Nat.mod_lt _ (by decide)).le

theorem schedContextSize_le : cfg.schedContextSize ≤ 2 ^ cfg.tcbBits := by
  have hle := cfg.sched_le
  unfold BootConfig.schedContextSize
  cases hs : cfg.minSchedContextBits with
  | none => exact Nat.zero_le _
  | some bits => exact Nat.pow_le_pow_right (by decide) (hle bits hs)

/-- The size of what comes behind the CNode and the address space. -/
def restSize (vReg : Region) : ℕ :=
  2 ^ asidPoolBits + (2 ^ pageBits + (2 ^ pageBits + (archGetNPaging vReg * 2 ^ pageTableBits +
    (2 ^ cfg.tcbBits + cfg.schedContextSize))))

/-- The sum of the sizes. -/
def rootserverSum (vReg : Region) (extraBiSizeBits : ℕ) : ℕ :=
  extraBiSize extraBiSizeBits + (2 ^ cfg.cnodeSizeBits + 2 ^ vspaceBits +
    (2 ^ asidPoolBits + (2 ^ pageBits + (2 ^ pageBits +
      (archGetNPaging vReg * 2 ^ pageTableBits + (2 ^ cfg.tcbBits + cfg.schedContextSize))))))

theorem rootserverSum_le (hextra : ExtraBits extraBiSizeBits) :
    rootserverSum cfg vReg extraBiSizeBits ≤ 2 ^ 63 + 2 ^ 60 := by
  have hcnode : 2 ^ cfg.cnodeSizeBits ≤ 2 ^ 31 := by
    refine Nat.pow_le_pow_right (by decide) ?_
    have := cfg.cnode_lt
    unfold BootConfig.cnodeSizeBits slotBits at *
    omega
  have htcb : 2 ^ cfg.tcbBits ≤ 2 ^ 12 := Nat.pow_le_pow_right (by decide) cfg.tcb_lt.le
  have hsched := schedContextSize_le cfg
  have hhuge : getNPaging vReg 30 ≤ 2 ^ 34 := getNPaging_lt
  have hlarge : getNPaging vReg 21 ≤ 2 ^ 43 := getNPaging_lt
  have hex : extraBiSize extraBiSizeBits ≤ 2 ^ 63 := by
    unfold extraBiSize
    split
    · refine Nat.pow_le_pow_right (by decide) ?_
      unfold ExtraBits at hextra
      omega
    · exact Nat.zero_le _
  unfold rootserverSum archGetNPaging vspaceBits asidPoolBits pageBits pageTableBits
  omega

/-- The sum does not overflow. -/
theorem calculateRootserverSize_eq (hextra : ExtraBits extraBiSizeBits) :
    calculateRootserverSize cfg vReg extraBiSizeBits = rootserverSum cfg vReg extraBiSizeBits := by
  have hle := @rootserverSum_le cfg extraBiSizeBits vReg hextra
  have hsum : 2 ^ cfg.cnodeSizeBits + 2 ^ cfg.tcbBits + 2 * 2 ^ pageBits + 2 ^ asidPoolBits +
      extraBiSize extraBiSizeBits + 2 ^ vspaceBits + cfg.schedContextSize +
      archGetNPaging vReg * 2 ^ pageTableBits = rootserverSum cfg vReg extraBiSizeBits := by
    unfold rootserverSum
    omega
  unfold calculateRootserverSize word
  rw [hsum, Nat.mod_eq_of_lt (by omega)]

/-- The scheduling context is the last object. -/
theorem allocSchedContext_spec (hstop : stop < 2 ^ 64)
    (h : Taken base stop cfg.tcbBits cfg.schedContextSize l mem) :
    ∃ sc mem', allocSchedContext cfg mem = .ok (sc, mem') ∧ mem'.start = mem'.stop ∧
      Cuts (⟨sc, sc + cfg.schedContextSize⟩ :: l) (· ∈ (⟨base, stop⟩ : Region)) ∧
      2 ^ cfg.minSchedContextBits.getD 0 ∣ sc := by
  have hle := cfg.sched_le
  unfold allocSchedContext
  unfold BootConfig.schedContextSize at *
  cases hs : cfg.minSchedContextBits with
  | none =>
    rw [hs] at h
    have hadd : mem.start = stop := h.start_add
    refine ⟨0, mem, rfl, by rw [h.stop_eq]; exact hadd, ?_, Nat.dvd_zero _⟩
    rw [← hadd]
    exact Cuts.cons_self_iff.2 h.cuts
  | some bits =>
    rw [hs] at h
    obtain ⟨mem', heq, hend, hdvd⟩ :=
      allocRootserverObj_one hstop (show Taken _ _ _ (2 ^ bits + 0) _ _ from h) (hle bits hs)
    have hadd : mem'.start = stop := hend.start_add
    refine ⟨mem.start, mem', heq, by rw [hend.stop_eq]; exact hadd, ?_, hdvd⟩
    rw [← hadd]
    exact hend.cuts

/-- How the objects are laid out: they cut up the memory, each is aligned, there is extra boot
info if it has a size, and the paging structures are as many as were counted. -/
structure LaidOut (start : ℕ) (vReg : Region) (extraBiSizeBits : ℕ) (rs : Rootserver) : Prop where
  cuts : Cuts (rs.objects cfg vReg extraBiSizeBits)
    (· ∈ (⟨start, start + calculateRootserverSize cfg vReg extraBiSizeBits⟩ : Region))
  aligned : ∀ p ∈ [(rs.extraBi, extraBiSizeBits), (rs.cnode, cfg.cnodeSizeBits),
    (rs.vspace, vspaceBits), (rs.asidPool, asidPoolBits), (rs.ipcBuf, pageBits),
    (rs.bootInfo, pageBits), (rs.tcb, cfg.tcbBits), (rs.paging.start, pageTableBits),
    (rs.sc, cfg.minSchedContextBits.getD 0)], 2 ^ p.2 ∣ p.1
  extraBi : rs.extraBi ≠ 0 ↔ extraBiSizeBits ≠ 0
  paging : rs.paging.stop = rs.paging.start + archGetNPaging vReg * 2 ^ pageTableBits

/-- From aligned memory of their size all objects are taken. -/
theorem createRootserverObjects_spec {start : ℕ} (hpos : 0 < start)
    (hextra : ExtraBits extraBiSizeBits)
    (hstop : start + calculateRootserverSize cfg vReg extraBiSizeBits < 2 ^ 64)
    (halign : 2 ^ rootserverMaxSizeBits cfg extraBiSizeBits ∣ start) :
    ∃ rs, createRootserverObjects cfg start vReg extraBiSizeBits = .ok rs ∧
      LaidOut cfg start vReg extraBiSizeBits rs := by
  have hword : word (start + calculateRootserverSize cfg vReg extraBiSizeBits) =
      start + calculateRootserverSize cfg vReg extraBiSizeBits := Nat.mod_eq_of_lt hstop
  have hmax : max cfg.cnodeSizeBits vspaceBits ≤ rootserverMaxSizeBits cfg extraBiSizeBits :=
    le_max_left _ _
  have hpage : pageBits ≤ max cfg.cnodeSizeBits vspaceBits :=
    le_trans cfg.page_le_cnode (le_max_left _ _)
  generalize hstopeq : start + calculateRootserverSize cfg vReg extraBiSizeBits = stop at *
  have hsize := @calculateRootserverSize_eq cfg extraBiSizeBits vReg hextra
  have he0 : ExtraBi start stop extraBiSizeBits 0 (extraBiSize extraBiSizeBits) := by
    unfold extraBiSize
    split
    · rename_i hgt
      exact .pending hgt
    · exact .absent (by omega)
  have h0 : Taken start stop (rootserverMaxSizeBits cfg extraBiSizeBits)
      (extraBiSize extraBiSizeBits + (2 ^ cfg.cnodeSizeBits + 2 ^ vspaceBits +
        restSize cfg vReg)) [extraRegion extraBiSizeBits 0 (extraBiSize extraBiSizeBits)]
      ⟨start, stop⟩ :=
    ⟨⟨le_refl _, (congrArg (start + ·) hsize.symm).trans hstopeq, rfl, halign⟩,
      by rw [extraRegion, Nat.sub_self]; exact Cuts.cons_self_iff.2 (.nil start)⟩
  -- the extra boot info comes first if nothing is larger
  obtain ⟨e1, p1, m1, heq1, htaken1, he1, hd1, hp1⟩ := maybeAllocExtraBi_spec hstop hpos h0 he0
    (lt_of_lt_of_le (by decide) (hpage.trans hmax)) (le_refl _) (fun _ => le_max_right _ _)
    ⟨Nat.dvd_zero _, fun _ => rfl⟩
  have hspaces : Taken start stop (max cfg.cnodeSizeBits vspaceBits)
      (2 ^ cfg.cnodeSizeBits + 2 ^ vspaceBits + p1 + restSize cfg vReg) _ m1 :=
    { htaken1.weaken hmax with start_add := by have := htaken1.start_add; omega }
  have hlarge : p1 ≠ 0 → vspaceBits ≤ extraBiSizeBits ∧
      extraBiSizeBits < max cfg.cnodeSizeBits vspaceBits := by
    intro hne
    obtain ⟨hlt, rfl⟩ := hp1 hne
    refine ⟨(hextra.resolve_left fun h0 => hne (by rw [h0]; rfl)).1, ?_⟩
    exact (lt_max_iff.1 hlt).resolve_right (lt_irrefl _)
  obtain ⟨cnode, vspace, e2, m2, heq2, htaken2, he2, hd2, hdc, hdv⟩ :=
    allocSpaces_spec cfg hstop hpos hspaces he1 hlarge hd1
  have hdone := he2.of_done rfl
  rw [restSize] at htaken2
  have hskip : maybeAllocExtraBi pageBits extraBiSizeBits e2 m2 = .ok (e2, m2) := by
    refine maybeAllocExtraBi_skip ?_
    rcases hdone with ⟨h0, _⟩ | ⟨hne, _⟩
    · exact .inl (by rw [h0]; decide)
    · exact .inr hne
  obtain ⟨m3, heq3, htaken3, hd3⟩ := allocRootserverObj_one hstop htaken2 (le_refl _)
  obtain ⟨m4, heq4, htaken4, hd4⟩ := allocRootserverObj_one hstop htaken3 (le_refl _)
  obtain ⟨m5, heq5, htaken5, hd5⟩ := allocRootserverObj_one hstop htaken4 (le_refl _)
  obtain ⟨m6, heq6, htaken6, hd6⟩ := allocRootserverObj_spec hstop htaken5 (le_refl _)
  obtain ⟨m7, heq7, htaken7, hd7⟩ := allocRootserverObj_one hstop htaken6 cfg.tcb_lt.le
  obtain ⟨sc, m8, heq8, hend, hcuts, hd8⟩ := allocSchedContext_spec cfg hstop htaken7
  have hword5 : word (m5.start + archGetNPaging vReg * 2 ^ pageTableBits) =
      m5.start + archGetNPaging vReg * 2 ^ pageTableBits :=
    Nat.mod_eq_of_lt (by have := htaken5.start_add; omega)
  obtain ⟨paging, hpaging⟩ : ∃ paging, m5.start = paging := ⟨_, rfl⟩
  rw [hpaging] at heq6 hd6 hcuts hword5
  refine ⟨⟨e2, cnode, vspace, m2.start, m3.start, m4.start, m6.start, ⟨paging, _⟩, sc⟩,
    ?_, ?_, ?_, ?_, hword5⟩
  · simp only [createRootserverObjects, hstopeq, hword, heq1, heq2, hskip, heq3, heq4, heq5, heq6,
      heq7, heq8, assert_eq hend, bind, Except.bind]
    rfl
  · rw [hstopeq]
    exact hcuts.perm ((List.Perm.cons _ (.swap ..)).trans (List.reverse_perm _).symm)
  · simp only [List.forall_mem_cons]
    exact ⟨hd2.1, hdc, hdv, hd3, hd4, hd5, hd7, hd6, hd8, nofun⟩
  · refine ⟨fun hne h0 => hne (hd2.2 h0), fun hne => ?_⟩
    exact (hdone.resolve_left fun h0 => hne h0.1).1

/-- The layout of the objects, for every region of the initial thread, every size of the extra
boot info and every aligned start but zero. -/
theorem rootserver_laid_out (start : ℕ) (vReg : Region) (extraBiSizeBits : ℕ) (hpos : start ≠ 0)
    (hextra : ExtraBits extraBiSizeBits)
    (hstop : start + calculateRootserverSize cfg vReg extraBiSizeBits < 2 ^ 64)
    (halign : 2 ^ rootserverMaxSizeBits cfg extraBiSizeBits ∣ start) :
    ∃ rs, createRootserverObjects cfg start vReg extraBiSizeBits = .ok rs ∧
      LaidOut cfg start vReg extraBiSizeBits rs :=
  createRootserverObjects_spec cfg (Nat.pos_of_ne_zero hpos) hextra hstop halign

/-- The default sizes, without scheduling contexts and devices. -/
def defaultConfig : BootConfig where
  rootCNodeSizeBits := 12
  tcbBits := 10
  minSchedContextBits := none
  kernelDevices := 0
  cnode_lt := by decide
  page_le_cnode := by decide
  tcb_lt := by decide
  sched_le := by simp

theorem laid_out_at_bank :
    ∃ rs, createRootserverObjects defaultConfig 0x80020000 ⟨0x10000, 0x20000⟩ 17 = .ok rs ∧
      LaidOut defaultConfig 0x80020000 ⟨0x10000, 0x20000⟩ 17 rs := by
  refine rootserver_laid_out _ _ _ _ ?_ ?_ ?_ ?_ <;> decide

/-- At address zero the extra boot info is taken twice. -/
theorem zero_start_fails :
    2 ^ rootserverMaxSizeBits defaultConfig 17 ∣ 0 ∧
      createRootserverObjects defaultConfig 0 ⟨0x10000, 0x20000⟩ 17 = .error .assertion :=
  ⟨Nat.dvd_zero _, rfl⟩

end SeL4Kernel.Boot
