import SeL4Kernel.Boot.Accounting
import SeL4Kernel.Boot.Untypeds

/-!
# The memory of the root server

After `init_freemem` the device memory is what lies between the entries of `ndks_boot.reserved`, in
the order of the array. `create_device_untypeds` begins each of its regions where an entry ends.
When this is inside of an entry that it has passed before, it has gone back, and hands out memory
of that entry. This is the only way in which a capability to device memory can reach into the
memory of the kernel, of the root server or of the boot code (`createUntypeds_right_iff`).
-/

namespace SeL4Kernel.Boot

open List Range

variable {cfg : BootConfig} {available reserved resv P : List Region} {itVReg reuse f : Region}
  {x extraBiSizeBits : ℕ} {b : Booted}

/-- The memory of the boot code: a region that is reserved and not free. -/
structure Reusable (b : Booted) (reuse : Region) : Prop where
  inside : Inside reuse
  le : reuse.start ≤ reuse.stop
  apart : ∀ f ∈ b.mem.freemem, f.Apart reuse
  marked : ∀ x ∈ reuse, Covered b.mem.reserved (pptrToPaddr x)

/-- The physical memory that is in use: the reserved regions of the kernel, the objects of the root
server, the free memory and the boot code. -/
def InUse (cfg : BootConfig) (reserved : List Region) (itVReg : Region) (extraBiSizeBits : ℕ)
    (b : Booted) (reuse : Region) (x : ℕ) : Prop :=
  Covered reserved (x + pptrBaseOffset) ∨
    x + pptrBaseOffset ∈ b.rootMem cfg itVReg extraBiSizeBits ∨
    Covered b.mem.freemem (x + pptrBaseOffset) ∨ x + pptrBaseOffset ∈ reuse

/-- `create_device_untypeds` goes back: a region begins inside of an entry `p` that has been passed
before, and a block of it is memory of `p` that is in use. -/
def GoesBack (reserved : List Region) (used : ℕ → Prop) : Prop :=
  ∃ g ∈ deviceGaps 0 reserved, ∃ p ∈ reserved, p.start < g.start ∧ ∃ x ∈ p, Blocks g x ∧ used x

/-- What is right about the capabilities: they are disjoint and aligned, device memory is apart
from all other memory, and only the ends of a region that are not aligned are left out. -/
structure UntypedsRight (cfg : BootConfig) (reserved : List Region) (itVReg : Region)
    (extraBiSizeBits : ℕ) (b : Booted) (reuse : Region) (us : List UntypedCap) : Prop where
  disjoint : us.Pairwise fun u v => (memory u).Apart (memory v)
  aligned : ∀ u ∈ us, 2 ^ u.capBlockSize ∣ u.capPtr ∧ u.capBlockSize ≤ maxUntypedBits
  device_apart : ∀ u ∈ us, u.capIsDevice = true → ∀ x ∈ memory u,
    ¬InUse cfg reserved itVReg extraBiSizeBits b reuse x
  whole : ∀ q ∈ inputs b.mem reuse, ∀ x, Blocks q.2 x →
    ∃ u ∈ us, u.capIsDevice = q.1 ∧ x ∈ memory u

/-- The free regions lie in the window, where they are not empty. -/
theorem Left.freemem_cases (hleft : Left cfg reserved resv itVReg extraBiSizeBits P b)
    (hf : f ∈ b.mem.freemem) : f = regEmpty ∨ Inside f ∧ f.start ≤ f.stop := by
  obtain ⟨k, ⟨H, g, K, hsplit, hstart, hend, hout⟩, _⟩ := hleft.fitted
  dsimp only at hstart hend hout
  have hP := hleft.inside
  rw [hsplit] at hP
  obtain ⟨hle, hg1, hg2⟩ := hP g (mem_append_right _ mem_cons_self)
  rw [hout] at hf
  rcases mem_append.1 hf with hf | hf
  · obtain ⟨hlt, hin⟩ := hP f (mem_append_left _ hf)
    exact .inr ⟨hin, hlt.le⟩
  rcases mem_cons.1 hf with rfl | hf
  · exact .inr ⟨⟨hg1, hg1.1.trans hstart, ((Nat.le_add_right _ _).trans hend).trans hg2.2⟩,
      hstart⟩
  rcases mem_cons.1 hf with rfl | hf
  · refine .inr ⟨⟨⟨?_, hend.trans hg2.2⟩, hg2⟩, hend⟩
    exact (hg1.1.trans hstart).trans (Nat.le_add_right _ _)
  · rcases mem_append.1 hf with hf | hf
    · obtain ⟨hlt, hin⟩ := hP f (mem_append_right _ (mem_cons_of_mem g hf))
      exact .inr ⟨hin, hlt.le⟩
    · exact .inl (eq_of_mem_replicate hf)

section

variable (h : f = regEmpty ∨ Inside f ∧ f.start ≤ f.stop)

include h

/-- A region of words is the image of its physical region. -/
theorem paddrToPptrReg_pptrToPaddrReg : paddrToPptrReg (pptrToPaddrReg f) = f := by
  have hwords : f.start < 2 ^ 64 ∧ f.stop < 2 ^ 64 := by
    rcases h with rfl | ⟨⟨h1, h2⟩, _⟩
    · exact ⟨by decide, by decide⟩
    · exact ⟨lt_of_le_of_lt h1.2 (by decide), lt_of_le_of_lt h2.2 (by decide)⟩
  unfold paddrToPptrReg pptrToPaddrReg
  rw [paddrToPptr_pptrToPaddr hwords.1, paddrToPptr_pptrToPaddr hwords.2]

/-- The physical region of a region of the window, or of an empty entry. -/
theorem pptrToPaddrReg_cases :
    (pptrToPaddrReg f).start ≤ (pptrToPaddrReg f).stop ∧ (pptrToPaddrReg f).stop < 2 ^ 64 ∧
      ∀ x ∈ pptrToPaddrReg f, x + pptrBaseOffset ∈ f := by
  have hword : (pptrToPaddrReg f).stop < 2 ^ 64 := Nat.mod_lt _ (by decide)
  rcases h with rfl | ⟨hin, hle⟩
  · refine ⟨le_refl _, hword, ?_⟩
    intro x hx
    exact absurd (lt_of_le_of_lt hx.1 hx.2) (lt_irrefl _)
  · refine ⟨?_, hword, fun x hx => (mem_pptrToPaddrReg hin).1 hx⟩
    unfold pptrToPaddrReg
    dsimp only
    rw [pptrToPaddr_eq hin.1, pptrToPaddr_eq hin.2]
    omega

end

theorem inWindow_of_mem (hin : Inside f) (hx : x + pptrBaseOffset ∈ f) :
    pptrToPaddr (x + pptrBaseOffset) = x := by
  have hw : InWindow (x + pptrBaseOffset) := ⟨hin.1.1.trans hx.1, hx.2.le.trans hin.2.2⟩
  rw [pptrToPaddr_eq hw, Nat.add_sub_cancel]

/-- All capabilities are those of the inputs. -/
theorem allUntypeds_eq (hfree : ∀ f ∈ reuse :: b.mem.freemem,
    f = regEmpty ∨ Inside f ∧ f.start ≤ f.stop) :
    allUntypeds b.mem reuse = cutInputs (inputs b.mem reuse) := by
  have hregs : ∀ l : List Region, (∀ f ∈ l, f = regEmpty ∨ Inside f ∧ f.start ≤ f.stop) →
      l.flatMap (cutRegion false) = cutInputs (l.map fun f => (false, pptrToPaddrReg f)) := by
    intro l hl
    unfold cutInputs
    rw [flatMap_map]
    induction l with
    | nil => rw [flatMap_nil, flatMap_nil]
    | cons f l ih =>
      obtain ⟨hf, hl⟩ := forall_mem_cons.1 hl
      rw [flatMap_cons, flatMap_cons, ih hl, paddrToPptrReg_pptrToPaddrReg hf]
  have hgaps : cutAll true (deviceGaps 0 b.mem.reserved) =
      cutInputs ((deviceGaps 0 b.mem.reserved).map (true, ·)) := by
    unfold cutAll cutInputs
    rw [flatMap_map]
  unfold allUntypeds inputs
  rw [hgaps, ← flatMap_cons, hregs _ hfree]
  exact flatMap_append.symm

/-- The state in which the capabilities are made. -/
structure BootState (cfg : BootConfig) (reserved : List Region) (itVReg : Region)
    (extraBiSizeBits : ℕ) (b : Booted) (reuse : Region) : Prop where
  sorted : Sorted b.mem.reserved
  words : ∀ x, Covered b.mem.reserved x → x < 2 ^ 64
  regions : ∀ f ∈ reuse :: b.mem.freemem, f = regEmpty ∨ Inside f ∧ f.start ≤ f.stop
  apart : (reuse :: b.mem.freemem).Pairwise Apart
  marked : ∀ x, InUse cfg reserved itVReg extraBiSizeBits b reuse x → Covered b.mem.reserved x

theorem initFreemem_bootState (h : Layout cfg available reserved resv)
    (hdev : ∀ r ∈ resv, r.stop ≤ 2 ^ 64) (hextra : ExtraBits extraBiSizeBits)
    (hb : initFreemem cfg available reserved itVReg extraBiSizeBits resv = .ok b)
    (hreuse : Reusable b reuse) : BootState cfg reserved itVReg extraBiSizeBits b reuse := by
  obtain ⟨P, -, hcases⟩ := @initFreemem_spec cfg available reserved resv itVReg extraBiSizeBits h
    hextra
  obtain ⟨b', hb', hleft⟩ := hcases.resolve_right fun hc => hc.1 b hb
  obtain rfl : b' = b := Except.ok.inj (hb'.symm.trans hb)
  have hcov := hleft.covered
  obtain ⟨hdisjoint, -, hfree⟩ := hleft.free
  refine ⟨hleft.sorted, fun x hx => ?_, forall_mem_cons.2 ⟨.inr ⟨hreuse.inside, hreuse.le⟩,
    fun f hf => hleft.freemem_cases hf⟩, pairwise_cons.2
      ⟨fun f hf => (hreuse.apart f hf).symm, hdisjoint⟩, fun x hx => ?_⟩
  · have hword : ∀ r : Region, Inside r → x + pptrBaseOffset ∈ r → x < 2 ^ 64 := by
      intro r hin hx
      refine lt_of_le_of_lt (Nat.le_add_right x pptrBaseOffset) ?_
      exact lt_of_lt_of_le hx.2 (hin.2.2.trans (by decide))
    rcases (hcov x).1 hx with ⟨r, hr, hxr⟩ | ⟨r, hr, hxr⟩ | ⟨r, hr, hxr⟩
    · exact lt_of_lt_of_le hxr.2 (hdev r hr)
    · exact hword r (h.reserved_inside r hr) hxr
    · exact hword r (hleft.inside r hr).2 hxr
  · rcases hx with hx | hx | hx | hx
    · exact (hcov x).2 (.inr (.inl hx))
    · exact (hcov x).2 (.inr (.inr ((hfree _).1 (.inr hx))))
    · exact (hcov x).2 (.inr (.inr ((hfree _).1 (.inl hx))))
    · have hm := hreuse.marked _ hx
      rwa [inWindow_of_mem hreuse.inside hx] at hm

namespace BootState

variable (h : BootState cfg reserved itVReg extraBiSizeBits b reuse)

include h

theorem inputs_bounds : ∀ q ∈ inputs b.mem reuse, q.2.start ≤ q.2.stop ∧ q.2.stop < 2 ^ 64 := by
  obtain ⟨hord, hgaps⟩ := @deviceGaps_spec 0 b.mem.reserved h.sorted
  intro q hq
  rcases mem_append.1 hq with hq | hq
  · obtain ⟨g, hg, rfl⟩ := mem_map.1 hq
    refine ⟨hord.le g hg, ?_⟩
    rcases (hgaps g hg).2.1 with heq | ⟨r, hr, heq⟩
    · rw [heq]
      decide
    · rw [heq]
      exact h.words _ ⟨r, hr, le_refl _, h.sorted.lt r hr⟩
  · obtain ⟨f, hf, rfl⟩ := mem_map.1 hq
    obtain ⟨hle, hlt, -⟩ := pptrToPaddrReg_cases (h.regions f hf)
    exact ⟨hle, hlt⟩

/-- A block of device memory that is in use belongs to an entry that the loop has passed. -/
theorem not_inUse {g : Region} (hno : ¬GoesBack b.mem.reserved
    (InUse cfg reserved itVReg extraBiSizeBits b reuse))
    (hg : g ∈ deviceGaps 0 b.mem.reserved) (hx : Blocks g x) :
    ¬InUse cfg reserved itVReg extraBiSizeBits b reuse x := by
  intro hused
  obtain ⟨p, hp, hxp⟩ := h.marked x hused
  refine hno ⟨g, hg, p, hp, ?_, x, hxp, hx, hused⟩
  rcases ((deviceGaps_spec h.sorted).2 g hg).2.2 p hp with hlt | hle
  · exact hlt
  · have := hx.mem
    rw [mem_iff] at hxp
    omega

theorem inputs_apart (hno : ¬GoesBack b.mem.reserved
    (InUse cfg reserved itVReg extraBiSizeBits b reuse)) :
    (inputs b.mem reuse).Pairwise fun q r => ∀ x, Blocks q.2 x → ¬Blocks r.2 x := by
  have hfree : ∀ f ∈ reuse :: b.mem.freemem, ∀ x, Blocks (pptrToPaddrReg f) x →
      x + pptrBaseOffset ∈ f := fun f hf x hx =>
    (pptrToPaddrReg_cases (h.regions f hf)).2.2 x hx.mem
  refine pairwise_append.2 ⟨?_, ?_, ?_⟩
  · refine pairwise_map.2 ((deviceGaps_spec h.sorted).1.pairwise_apart.imp ?_)
    exact fun hapart x hx hx' => hapart x hx.mem hx'.mem
  · refine pairwise_map.2 (h.apart.imp_of_mem ?_)
    exact fun hf hg hapart x hx hx' => hapart _ (hfree _ hf x hx) (hfree _ hg x hx')
  · intro q hq r hr x hxq hxr
    obtain ⟨g, hg, rfl⟩ := mem_map.1 hq
    obtain ⟨f, hf, rfl⟩ := mem_map.1 hr
    have hx := hfree f hf x hxr
    refine h.not_inUse hno hg hxq (.inr (.inr ?_))
    rcases mem_cons.1 hf with rfl | hf
    · exact .inr hx
    · exact .inl ⟨f, hf, hx⟩

end BootState

/-- **Main result.** After every boot, if there are slots for the untyped capabilities of the root
server, these are right if and only if `create_device_untypeds` does not go back. -/
theorem createUntypeds_right_iff (cfg : BootConfig) (available reserved resv : List Region)
    (itVReg : Region) (extraBiSizeBits : ℕ) (b : Booted) (reuse : Region) (c : RootCNode)
    (h : Layout cfg available reserved resv) (hdev : ∀ r ∈ resv, r.stop ≤ 2 ^ 64)
    (hextra : ExtraBits extraBiSizeBits)
    (hb : initFreemem cfg available reserved itVReg extraBiSizeBits resv = .ok b)
    (hreuse : Reusable b reuse)
    (hslots : HasSlots c.slotPosCur (allUntypeds b.mem reuse).length c) :
    ∃ us, createUntypeds b.mem reuse c = (true, c.add us) ∧
      (UntypedsRight cfg reserved itVReg extraBiSizeBits b reuse us ↔
        ¬GoesBack b.mem.reserved (InUse cfg reserved itVReg extraBiSizeBits b reuse)) := by
  have hstate := initFreemem_bootState h hdev hextra hb hreuse
  have hhanded := cutInputs_handed hstate.inputs_bounds
  refine ⟨_, createUntypeds_eq hslots, ?_⟩
  rw [allUntypeds_eq hstate.regions]
  constructor
  · rintro hright ⟨g, hg, p, -, -, x, -, hx, hused⟩
    obtain ⟨u, hu, hdevice, hxu⟩ :=
      hhanded.whole (true, g) (mem_append_left _ (mem_map_of_mem hg)) x hx
    exact hright.device_apart u hu hdevice x hxu hused
  · intro hno
    refine ⟨hhanded.disjoint (hstate.inputs_apart hno), hhanded.aligned, ?_, hhanded.whole⟩
    intro u hu hdevice x hx
    obtain ⟨q, hq, hqd, hin⟩ := hhanded.source u hu
    -- a device capability comes from a gap
    rcases mem_append.1 hq with hq | hq
    · obtain ⟨g, hg, rfl⟩ := mem_map.1 hq
      exact hstate.not_inUse hno hg (hin x hx)
    · obtain ⟨g, hg, rfl⟩ := mem_map.1 hq
      rw [hdevice] at hqd
      cases hqd

/-! ### Two root servers -/

/-- A region inside one that is reserved, and outside of the free ones. -/
theorem reusable_of_within {r : Region} (hin : Inside reuse) (hle : reuse.start ≤ reuse.stop)
    (hfree : ∀ f ∈ b.mem.freemem, f.stop ≤ f.start ∨ f.stop ≤ reuse.start ∨ reuse.stop ≤ f.start)
    (hr : r ∈ b.mem.reserved) (hstart : r.start + pptrBaseOffset ≤ reuse.start)
    (hstop : reuse.stop ≤ r.stop + pptrBaseOffset) : Reusable b reuse := by
  refine ⟨hin, hle, ?_, ?_⟩
  · intro f hf
    rcases hfree f hf with hempty | hbefore | hafter
    · intro x hx
      exact absurd (lt_of_le_of_lt hx.1 hx.2) (not_lt.2 hempty)
    · exact apart_of_le hbefore
    · exact (apart_of_le hafter).symm
  · intro x hx
    have hw : InWindow x := ⟨hin.1.1.trans hx.1, hx.2.le.trans hin.2.2⟩
    have hlt := hx.2
    have hge := hx.1
    refine ⟨r, hr, ?_⟩
    rw [pptrToPaddr_eq hw, mem_iff]
    omega

/-- The start of the kernel image in front of the first bank. -/
def bootCode : Region := ⟨pptrBaseOffset + 0x800, pptrBaseOffset + 0x1000⟩

def emptyCNode : RootCNode := { slotPosCur := 100, slotPosMax := 4096, untypeds := [] }

/-- The free memory of the second bank overlaps the image, but ends behind it. -/
theorem twoBanks_untypeds_right :
    ∃ us, createUntypeds spanningBoot.mem bootCode emptyCNode = (true, emptyCNode.add us) ∧
      UntypedsRight defaultConfig spanning ⟨0x10000, 0x20000⟩ 0 spanningBoot bootCode us := by
  obtain ⟨us, heq, hright⟩ := createUntypeds_right_iff defaultConfig twoBanks spanning []
    ⟨0x10000, 0x20000⟩ 0 spanningBoot bootCode emptyCNode twoBanks_layout (by decide) (by decide)
    (by decide +kernel)
    (reusable_of_within (r := ⟨0x800, 0x3800⟩) (by decide) (by decide) (by decide) (by decide)
      (by decide) (by decide)) ⟨by decide, by decide +kernel, by decide +kernel⟩
  refine ⟨us, heq, hright.2 ?_⟩
  rintro ⟨g, hg, p, hp, hstart, x, hxp, hxg, -⟩
  have hends : ∀ g ∈ deviceGaps 0 spanningBoot.mem.reserved, ∀ p ∈ spanningBoot.mem.reserved,
      p.start < g.start → p.stop ≤ g.start := by decide
  exact absurd (hxg.mem.1.trans_lt hxp.2) (not_lt.2 (hends g hg p hp hstart))

/-- Three banks of memory. -/
def threeBanks : List Region :=
  [⟨0x1000, 0x2000⟩, ⟨0x3000, 0x4000⟩, ⟨0x10000000, 0x20000000⟩]

/-- An image around the first two of them. -/
def largeImage : List Region := [⟨pptrBaseOffset + 0x800, pptrBaseOffset + 0x5000⟩]

theorem threeBanks_layout : Layout defaultConfig threeBanks largeImage [] :=
  layout_of_no_devices (by decide) (by decide) (by decide) (by decide) (by decide) (by decide)
    (by decide) (by decide)

def threeBanksBoot : Booted where
  mem :=
    { reserved := [⟨0x800, 0x5000⟩, ⟨0x3000, 0x4000⟩, ⟨0x10000000, 0x20000000⟩]
      freemem := [⟨pptrBaseOffset + 0x3000, pptrBaseOffset + 0x4000⟩,
        ⟨pptrBaseOffset + 0x10000000, pptrBaseOffset + 0x1ffc0000⟩,
        ⟨pptrBaseOffset + 0x1ffe6400, pptrBaseOffset + 0x20000000⟩] ++ List.replicate 13 regEmpty }
  start := pptrBaseOffset + 0x1ffc0000
  rootserver :=
    { extraBi := 0
      cnode := pptrBaseOffset + 0x1ffc0000
      vspace := pptrBaseOffset + 0x1ffe0000
      asidPool := pptrBaseOffset + 0x1ffe1000
      ipcBuf := pptrBaseOffset + 0x1ffe2000
      bootInfo := pptrBaseOffset + 0x1ffe3000
      tcb := pptrBaseOffset + 0x1ffe6000
      paging := ⟨pptrBaseOffset + 0x1ffe4000, pptrBaseOffset + 0x1ffe6000⟩
      sc := 0 }

/-- The end of the image is handed out as device memory. -/
theorem threeBanks_untypeds_wrong :
    Layout defaultConfig threeBanks largeImage [] ∧
    initFreemem defaultConfig threeBanks largeImage ⟨0x10000, 0x20000⟩ 0 [] =
      .ok threeBanksBoot ∧ Reusable threeBanksBoot bootCode ∧
    ∃ us, createUntypeds threeBanksBoot.mem bootCode emptyCNode = (true, emptyCNode.add us) ∧
      ¬UntypedsRight defaultConfig largeImage ⟨0x10000, 0x20000⟩ 0 threeBanksBoot bootCode us := by
  refine ⟨threeBanks_layout, by decide +kernel, ?_, _,
    createUntypeds_eq ⟨by decide, by decide +kernel, by decide +kernel⟩, ?_⟩
  · exact reusable_of_within (r := ⟨0x800, 0x5000⟩) (by decide) (by decide) (by decide)
      (by decide) (by decide) (by decide)
  intro h
  have hmem : rootUntyped true (pptrBaseOffset + 0x4000) 14 ∈
      allUntypeds threeBanksBoot.mem bootCode := by
    decide +kernel
  refine h.device_apart _ hmem rfl 0x4000 ⟨by decide, by decide⟩ (.inl ?_)
  exact ⟨_, mem_cons_self, by decide, by decide⟩

end SeL4Kernel.Boot
