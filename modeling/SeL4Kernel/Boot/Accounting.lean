import SeL4Kernel.Boot.Sweep

/-!
# The account of the memory

What `init_freemem` leaves: the free regions, the objects of the root server and the reserved
regions (`initFreemem_spec`). When the sweep separates the reserved regions from the available
ones, and there are entries for the pieces, nothing is lost and nothing is counted twice.
-/

namespace SeL4Kernel.Boot

open List Range

variable {cfg : BootConfig} {available reserved resv P : List Region} {itVReg : Region}
  {x extraBiSizeBits : ℕ} {b : Booted} (h : Layout cfg available reserved resv)

theorem checkReserved_eq {l : List Region} (h : Ordered l) : checkReserved l = .ok () := by
  induction l with
  | nil => rfl
  | cons a l ih =>
    obtain ⟨ha, hbefore, hl⟩ := ordered_cons.1 h
    cases l with
    | nil => rfl
    | cons b l =>
      rw [checkReserved, assert_eq ha, assert_eq (hbefore b mem_cons_self)]
      exact ih hl

theorem checkAvailable_eq {l : List Region} (hne : l ≠ []) (h : Ordered l)
    (hlt : ∀ a ∈ l.dropLast, a.start < a.stop) : checkAvailable l = .ok () := by
  induction l with
  | nil => exact absurd rfl hne
  | cons a l ih =>
    obtain ⟨ha, hbefore, hl⟩ := ordered_cons.1 h
    cases l with
    | nil => rfl
    | cons b l =>
      rw [checkAvailable, assert_eq (hlt a mem_cons_self), assert_eq (hbefore b mem_cons_self)]
      exact ih (cons_ne_nil b l) hl fun c hc => hlt c (mem_cons_of_mem a hc)

/-- The memory of the objects of the root server. -/
def Booted.rootMem (cfg : BootConfig) (itVReg : Region) (extraBiSizeBits : ℕ) (b : Booted) :
    Region :=
  ⟨b.start, b.start + calculateRootserverSize cfg itVReg extraBiSizeBits⟩

/-- The account: every byte of the available memory is reserved, free or the root server's, and
`ndks_boot.reserved` has all of it. -/
structure Accounted (cfg : BootConfig) (available reserved : List Region) (itVReg : Region)
    (extraBiSizeBits : ℕ) (b : Booted) : Prop where
  disjoint : b.mem.freemem.Pairwise Apart
  reserved_apart : ∀ f ∈ b.mem.freemem, ∀ r ∈ reserved, f.Apart r
  root_apart : ∀ f ∈ b.mem.freemem, f.Apart (b.rootMem cfg itVReg extraBiSizeBits)
  objects : ∀ o ∈ b.rootserver.objects cfg itVReg extraBiSizeBits, ∀ x ∈ o,
    x ∈ b.rootMem cfg itVReg extraBiSizeBits
  exact : ∀ x, Covered b.mem.freemem x ∨ x ∈ b.rootMem cfg itVReg extraBiSizeBits ↔
    Covered (availReg available) x ∧ ¬Covered reserved x
  marked : ∀ r ∈ reserved ++ b.mem.freemem, ∀ x ∈ r, Covered b.mem.reserved (pptrToPaddr x)

/-- The state that `init_freemem` leaves. `P` are the pieces that it has found, before the objects
of the root server were taken from one of them. -/
structure Left (cfg : BootConfig) (reserved resv : List Region) (itVReg : Region)
    (extraBiSizeBits : ℕ) (P : List Region) (b : Booted) : Prop where
  ordered : Ordered P
  inside : ∀ p ∈ P, p.start < p.stop ∧ Inside p
  fitted : ∃ k, Fitted cfg itVReg extraBiSizeBits P (List.replicate k regEmpty)
    (b.mem.freemem, b.start, b.rootserver)
  sorted : Sorted b.mem.reserved
  covered : ∀ x, Covered b.mem.reserved x ↔ Covered resv x ∨
    Covered reserved (x + pptrBaseOffset) ∨ Covered P (x + pptrBaseOffset)

theorem covered_replicate_regEmpty {k : ℕ} : ¬Covered (List.replicate k regEmpty) x := by
  rintro ⟨r, hr, hx⟩
  rw [eq_of_mem_replicate hr] at hx
  exact absurd hx.2 (Nat.not_lt_zero x)

include h

/-- The whole of `init_freemem`: one of the pieces is split, or the objects fit into none. It stops
when the pieces fill all entries. -/
theorem initFreemem_spec (hextra : ExtraBits extraBiSizeBits) :
    ∃ P, (Sweepable available reserved → P = freePieces available reserved) ∧
      ((∃ b, initFreemem cfg available reserved itVReg extraBiSizeBits resv = .ok b ∧
          Left cfg reserved resv itVReg extraBiSizeBits P b) ∨
        (∀ b, initFreemem cfg available reserved itVReg extraBiSizeBits resv ≠ .ok b) ∧
          (P.length < maxNumFreememReg → ∀ f ∈ P, ¬RootFits cfg itVReg extraBiSizeBits f)) := by
  obtain ⟨s, D, P, k, hrun, hswept⟩ := h.sweep_spec
  have hlen := hswept.length
  have hfilled := fun f hf => (hswept.filled f hf).1
  refine ⟨P, fun hs => (append_nil P).symm.trans (hswept.exact hs), ?_⟩
  unfold initFreemem
  rw [checkReserved_eq h.reserved_ordered,
    checkAvailable_eq h.available_ne h.available_ordered h.available_lt, h.availReg_eq]
  dsimp only [bind, Except.bind]
  rw [if_neg (not_lt.2 h.available_length), hrun]
  dsimp only
  rw [hswept.freemem, getD_append_empty, isRegEmpty_getD hfilled]
  by_cases hfull : P.length ≤ maxNumFreememReg - 1
  swap
  · rw [decide_eq_false hfull, if_pos Bool.false_ne_true]
    exact .inr ⟨nofun, fun hlt => absurd (Nat.le_sub_one_of_lt hlt) hfull⟩
  have hpos : 0 < maxNumFreememReg := by decide
  obtain ⟨n, rfl⟩ : ∃ n, k = n + 1 := ⟨k - 1, by omega⟩
  rw [decide_eq_true hfull, if_neg (by decide)]
  by_cases hne : P = []
  · rw [hne, nil_append, lastNonempty_error]
    exact .inr ⟨nofun, fun _ => nofun⟩
  rw [lastNonempty_eq hfilled hne (by omega), replicate_succ]
  dsimp only
  rcases fitRootserver_spec hextra _ hne (fun q hq => (hswept.filled q hq).2) (by omega) regEmpty
    (List.replicate n regEmpty) with ⟨⟨freemem, start, rs⟩, hroot, hfitted, -⟩ | ⟨herr, hno⟩
  · rw [hroot]
    have hmarks := hswept.marks n.succ_pos
    refine .inl ⟨⟨⟨s.reserved, freemem⟩, start, rs⟩, rfl, hswept.free, hswept.filled, ⟨n, hfitted⟩,
      hmarks.sorted, fun x => ?_⟩
    have hD : live reserved = D := hswept.split.trans (append_nil D)
    rw [hmarks.covered, covered_append, ← hD, covered_live]
  · rw [herr]
    exact .inr ⟨nofun, fun _ => hno⟩

omit h

/-- The free regions after the objects were taken from one of them. -/
theorem Left.free (hleft : Left cfg reserved resv itVReg extraBiSizeBits P b) :
    b.mem.freemem.Pairwise Apart ∧
      (∀ f ∈ b.mem.freemem, f.Apart (b.rootMem cfg itVReg extraBiSizeBits)) ∧
      ∀ x, Covered b.mem.freemem x ∨ x ∈ b.rootMem cfg itVReg extraBiSizeBits ↔ Covered P x := by
  obtain ⟨k, ⟨H, f, K, hsplit, hstart, hend, hout⟩, -⟩ := hleft.fitted
  dsimp only at hstart hend hout
  have hroot : b.start ≤ b.start + calculateRootserverSize cfg itVReg extraBiSizeBits :=
    Nat.le_add_right _ _
  have hord : Ordered (H ++ ⟨f.start, b.start⟩ ::
      ⟨b.start + calculateRootserverSize cfg itVReg extraBiSizeBits, f.stop⟩ :: K) := by
    refine Ordered.hole ?_ hstart hroot hend
    rw [← hsplit]
    exact hleft.ordered
  have hmem : b.mem.freemem = (H ++ ⟨f.start, b.start⟩ ::
      ⟨b.start + calculateRootserverSize cfg itVReg extraBiSizeBits, f.stop⟩ :: K) ++
        List.replicate k regEmpty := by
    rw [hout]
    simp
  refine ⟨?_, ?_, fun x => ?_⟩
  · rw [hmem]
    refine pairwise_append.2 ⟨hord.pairwise_apart, ?_, ?_⟩
    · refine pairwise_of_forall_mem_list ?_
      intro p hp q hq x hx
      exact absurd ⟨p, hp, hx⟩ covered_replicate_regEmpty
    · intro p hp q hq x _ hx
      exact absurd ⟨q, hq, hx⟩ covered_replicate_regEmpty
  · -- a free region ends where the objects start, or starts where they end
    intro p hp x hxp hxr
    obtain ⟨_, hrest, hbefore⟩ := ordered_append.1 hord
    obtain ⟨_, _, hrest⟩ := ordered_cons.1 hrest
    obtain ⟨_, hafter, _⟩ := ordered_cons.1 hrest
    unfold Booted.rootMem at hxr
    rw [mem_iff] at hxp hxr
    dsimp only at hxr hafter
    rw [hmem] at hp
    rcases mem_append.1 hp with hp | hp
    · rcases mem_append.1 hp with hp | hp
      · have := hbefore p hp _ mem_cons_self
        dsimp only at this
        omega
      · rcases mem_cons.1 hp with rfl | hp
        · dsimp only at hxp
          omega
        · rcases mem_cons.1 hp with rfl | hp
          · dsimp only at hxp
            omega
          · have := hafter p hp
            omega
    · exact covered_replicate_regEmpty ⟨p, hp, hxp⟩
  · rw [hmem, covered_append, or_iff_left covered_replicate_regEmpty, hsplit]
    exact covered_hole hstart hroot hend

include h in
/-- The account of a boot whose pieces are right. -/
theorem Left.accounted
    (hleft : Left cfg reserved resv itVReg extraBiSizeBits (freePieces available reserved) b) :
    Accounted cfg available reserved itVReg extraBiSizeBits b := by
  obtain ⟨hdisjoint, hroot, hcover⟩ := hleft.free
  have hexact : ∀ x, Covered b.mem.freemem x ∨ x ∈ b.rootMem cfg itVReg extraBiSizeBits ↔
      Covered (availReg available) x ∧ ¬Covered reserved x := fun x =>
    (hcover x).trans h.covered_freePieces
  refine ⟨hdisjoint, ?_, hroot, hleft.fitted.elim fun _ hfitted => hfitted.objects, hexact, ?_⟩
  · intro p hp r hr x hxp hxr
    exact ((hexact x).1 (.inl ⟨p, hp, hxp⟩)).2 ⟨r, hr, hxr⟩
  · intro r hr x hx
    have hmark : ∀ q : Region, Inside q → x ∈ q → pptrToPaddr x + pptrBaseOffset = x := by
      intro q hin hxq
      have hw : InWindow x := ⟨hin.1.1.trans hxq.1, hxq.2.le.trans hin.2.2⟩
      rw [pptrToPaddr_eq hw, Nat.sub_add_cancel hw.1]
    rw [hleft.covered]
    rcases mem_append.1 hr with hr | hr
    · rw [hmark r (h.reserved_inside r hr) hx]
      exact .inr (.inl ⟨r, hr, hx⟩)
    · obtain ⟨p, hp, hxp⟩ := (hcover x).1 (.inl ⟨r, hr, hx⟩)
      rw [hmark p (hleft.inside p hp).2 hxp]
      exact .inr (.inr ⟨p, hp, hxp⟩)

/-- **Main result.** If the sweep can separate the regions and a piece is large enough for the
objects of the root server, all the memory is accounted for. -/
theorem initFreemem_accounted (cfg : BootConfig) (available reserved resv : List Region)
    (itVReg : Region) (extraBiSizeBits : ℕ) (h : Layout cfg available reserved resv)
    (hextra : ExtraBits extraBiSizeBits)
    (hfits : ∃ f ∈ freePieces available reserved, RootFits cfg itVReg extraBiSizeBits f)
    (hsweep : Sweepable available reserved) :
    ∃ b, initFreemem cfg available reserved itVReg extraBiSizeBits resv = .ok b ∧
      Accounted cfg available reserved itVReg extraBiSizeBits b := by
  obtain ⟨f, hf, hfit⟩ := hfits
  obtain ⟨P, hP, hcases⟩ := @initFreemem_spec cfg available reserved resv itVReg extraBiSizeBits h
    hextra
  obtain rfl := hP hsweep
  obtain ⟨b, heq, hleft⟩ := hcases.resolve_right fun hc => hc.2 hsweep.entries f hf hfit
  exact ⟨b, heq, hleft.accounted h⟩

/-! ### Two boots -/

/-- A kernel image from the end of one bank of memory into the next. -/
def imageBanks : List Region := [⟨0x80200000, 0x84000000⟩, ⟨0x84080000, 0x90000000⟩]

def kernelImage : List Region :=
  [⟨pptrBaseOffset + 0x83f00000, pptrBaseOffset + 0x84100000⟩]

/-- Two banks, and a reserved region from before the first one into the second. -/
def twoBanks : List Region := [⟨0x1000, 0x2000⟩, ⟨0x3000, 0x1000000⟩]

def spanning : List Region := [⟨pptrBaseOffset + 0x800, pptrBaseOffset + 0x3800⟩]

theorem layout_of_no_devices (hne : available ≠ []) (hord : Ordered available)
    (hlt : ∀ a ∈ available.dropLast, a.start < a.stop)
    (hin : ∀ a ∈ available, a.stop ≤ paddrTop) (hlen : available.length ≤ maxNumFreememReg)
    (hres : Ordered reserved) (hrin : ∀ r ∈ reserved, Inside r)
    (hrlen : reserved.length ≤ maxReserved) : Layout cfg available reserved [] where
  available_ne := hne
  available_ordered := hord
  available_lt := hlt
  available_inside := hin
  available_length := hlen
  reserved_ordered := hres
  reserved_inside := hrin
  reserved_length := hrlen
  devices_gapped := ⟨fun _ hr => absurd hr not_mem_nil, List.Pairwise.nil⟩
  devices_length := Nat.zero_le _
  devices_apart := fun _ hx => absurd hx covered_nil

theorem imageBanks_layout : Layout defaultConfig imageBanks kernelImage [] :=
  layout_of_no_devices (by decide) (by decide) (by decide) (by decide) (by decide) (by decide)
    (by decide) (by decide)

theorem twoBanks_layout : Layout defaultConfig twoBanks spanning [] :=
  layout_of_no_devices (by decide) (by decide) (by decide) (by decide) (by decide) (by decide)
    (by decide) (by decide)

theorem imageBanks_sweepable : Sweepable imageBanks kernelImage where
  separable := by
    unfold Separable
    decide
  entries := by decide

theorem imageBanks_accounted :
    ∃ b, initFreemem defaultConfig imageBanks kernelImage ⟨0x10000, 0x20000⟩ 0 [] = .ok b ∧
      Accounted defaultConfig imageBanks kernelImage ⟨0x10000, 0x20000⟩ 0 b :=
  initFreemem_accounted defaultConfig imageBanks kernelImage [] ⟨0x10000, 0x20000⟩ 0
    imageBanks_layout (by decide) (by decide) imageBanks_sweepable

/-- What the boot makes of the two banks. -/
def spanningBoot : Booted where
  mem :=
    { reserved := [⟨0x800, 0x3800⟩, ⟨0x3000, 0x1000000⟩]
      freemem := [⟨pptrBaseOffset + 0x3000, pptrBaseOffset + 0xfc0000⟩,
        ⟨pptrBaseOffset + 0xfe6400, pptrBaseOffset + 0x1000000⟩] ++ List.replicate 14 regEmpty }
  start := pptrBaseOffset + 0xfc0000
  rootserver :=
    { extraBi := 0
      cnode := pptrBaseOffset + 0xfc0000
      vspace := pptrBaseOffset + 0xfe0000
      asidPool := pptrBaseOffset + 0xfe1000
      ipcBuf := pptrBaseOffset + 0xfe2000
      bootInfo := pptrBaseOffset + 0xfe3000
      tcb := pptrBaseOffset + 0xfe6000
      paging := ⟨pptrBaseOffset + 0xfe4000, pptrBaseOffset + 0xfe6000⟩
      sc := 0 }

/-- What is left of the second bank is free, although it begins with reserved memory. -/
theorem twoBanks_not_accounted :
    Layout defaultConfig twoBanks spanning [] ∧
    (∃ f ∈ freePieces twoBanks spanning, RootFits defaultConfig ⟨0x10000, 0x20000⟩ 0 f) ∧
    ∃ b, initFreemem defaultConfig twoBanks spanning ⟨0x10000, 0x20000⟩ 0 [] = .ok b ∧
      ¬Accounted defaultConfig twoBanks spanning ⟨0x10000, 0x20000⟩ 0 b := by
  refine ⟨twoBanks_layout, by decide, spanningBoot, by decide +kernel, ?_⟩
  intro h
  have hmem : (⟨pptrBaseOffset + 0x3000, pptrBaseOffset + 0xfc0000⟩ : Region) ∈
      spanningBoot.mem.freemem := mem_cons_self
  exact h.reserved_apart _ hmem _ mem_cons_self (pptrBaseOffset + 0x3000)
    ⟨by decide, by decide⟩ ⟨by decide, by decide⟩

end SeL4Kernel.Boot
