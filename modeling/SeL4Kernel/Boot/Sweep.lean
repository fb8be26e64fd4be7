import SeL4Kernel.Boot.FreeMemory
import SeL4Kernel.Lib.Outcome

/-!
# The sweep over the memory

The sweep of `init_freemem` takes pieces of the available regions, in order, and marks them and the
reserved regions (`Layout.sweep_spec`). If it can separate the regions (`Sweepable`), the pieces are
what is left of the available memory without the reserved. Otherwise a piece may overlap a reserved
region. Even so the pieces are apart from each other, and what is marked at last is sorted by its
starts, because nothing that was marked starts behind what is left of the available memory.
-/

namespace SeL4Kernel.Boot

open List Range

/-- `MAX_RESERVED`: the kernel image, the device tree and the user image. -/
def maxReserved : ℕ := 3

/-- The regions `init_freemem` is called with, when the devices of the kernel are all that is
reserved before. -/
structure Layout (cfg : BootConfig) (available reserved resv : List Region) : Prop where
  available_ne : available ≠ []
  available_ordered : Ordered available
  available_lt : ∀ a ∈ available.dropLast, a.start < a.stop
  available_inside : ∀ a ∈ available, a.stop ≤ paddrTop
  available_length : available.length ≤ maxNumFreememReg
  reserved_ordered : Ordered reserved
  reserved_inside : ∀ r ∈ reserved, Inside r
  reserved_length : reserved.length ≤ maxReserved
  devices_gapped : Gapped resv
  devices_length : resv.length ≤ cfg.kernelDevices
  devices_apart : ∀ x, Covered resv x →
    ¬Covered available x ∧ ¬Covered reserved (x + pptrBaseOffset)

/-- The available regions as regions of the kernel window. -/
def availReg (available : List Region) : List Region := available.map paddrToPptrReg

/-- The regions that are left to be free. -/
def freePieces (available reserved : List Region) : List Region :=
  pieces (availReg available) (live reserved)

/-- The condition under which the sweep is right: it separates the regions, and the pieces that
are left have entries. -/
structure Sweepable (available reserved : List Region) : Prop where
  separable : Separable (availReg available) reserved
  entries : (freePieces available reserved).length < maxNumFreememReg

variable {cfg : BootConfig} {available reserved resv A R D F S S' : List Region} {s s' : BootMem}
  {a r p : Region} {k e x : ℕ}

theorem mem_paddrToPptrReg (hle : a.start ≤ a.stop) (h : a.stop ≤ paddrTop) :
    x + pptrBaseOffset ∈ paddrToPptrReg a ↔ x ∈ a := by
  unfold paddrToPptrReg
  simp only [mem_iff, paddrToPptr_eq (hle.trans h), paddrToPptr_eq h]
  omega

theorem ceilingKernelWindow_eq {p : ℕ} (h : p ≤ paddrTop) :
    ceilingKernelWindow (paddrToPptr p) = paddrToPptr p := by
  refine if_neg ?_
  rw [pptrToPaddr_eq (inWindow_paddrToPptr h), paddrToPptr_eq h]
  omega

namespace Layout

variable (h : Layout cfg available reserved resv)

include h

theorem availReg_eq :
    (available.map fun p => ceilingReg (paddrToPptrReg p)) = availReg available := by
  refine map_congr_left ?_
  intro a ha
  have hstop := h.available_inside a ha
  have hstart := (h.available_ordered.le a ha).trans hstop
  unfold ceilingReg paddrToPptrReg
  rw [ceilingKernelWindow_eq hstart, ceilingKernelWindow_eq hstop]

theorem ordered_availReg : Ordered (availReg available) := by
  have hshift : ∀ a ∈ available, ∀ y, y = a.start ∨ y = a.stop →
      paddrToPptr y = y + pptrBaseOffset := by
    intro a ha y hy
    have hstop := h.available_inside a ha
    have hle := h.available_ordered.le a ha
    refine paddrToPptr_eq ?_
    rcases hy with rfl | rfl
    · exact hle.trans hstop
    · exact hstop
  refine ⟨?_, ?_⟩
  · intro r hr
    obtain ⟨a, ha, rfl⟩ := mem_map.1 hr
    unfold paddrToPptrReg
    rw [hshift a ha _ (.inl rfl), hshift a ha _ (.inr rfl)]
    exact Nat.add_le_add_right (h.available_ordered.le a ha) _
  · refine pairwise_map.2 (h.available_ordered.order.imp_of_mem ?_)
    intro a b ha hb hab
    unfold paddrToPptrReg
    rw [hshift a ha _ (.inr rfl), hshift b hb _ (.inl rfl)]
    exact Nat.add_le_add_right hab _

theorem inside_availReg : ∀ a ∈ availReg available, Inside a := by
  intro r hr
  obtain ⟨a, ha, rfl⟩ := mem_map.1 hr
  have hstop := h.available_inside a ha
  exact ⟨inWindow_paddrToPptr ((h.available_ordered.le a ha).trans hstop),
    inWindow_paddrToPptr hstop⟩

theorem covered_availReg :
    Covered (availReg available) (x + pptrBaseOffset) ↔ Covered available x := by
  constructor
  · rintro ⟨r, hr, hx⟩
    obtain ⟨a, ha, rfl⟩ := mem_map.1 hr
    exact ⟨a, ha, (mem_paddrToPptrReg (h.available_ordered.le a ha) (h.available_inside a ha)).1 hx⟩
  · rintro ⟨a, ha, hx⟩
    exact ⟨_, mem_map_of_mem ha, (mem_paddrToPptrReg (h.available_ordered.le a ha)
      (h.available_inside a ha)).2 hx⟩

theorem ordered_live : Ordered (live reserved) := Boot.ordered_live h.reserved_ordered

theorem covered_freePieces :
    Covered (freePieces available reserved) x ↔
      Covered (availReg available) x ∧ ¬Covered reserved x := by
  unfold freePieces
  rw [covered_pieces h.ordered_live, covered_live]

end Layout

/-! ### The state of the sweep -/

/-- The reserved regions `l` after the devices and the regions `S` were marked. -/
structure Marks (resv S l : List Region) : Prop where
  sorted : Sorted l
  starts : ∀ e ∈ l, (∃ d ∈ resv, e.start = d.start) ∨ ∃ q ∈ S, e.start + pptrBaseOffset = q.start
  covered : ∀ x, Covered l x ↔ Covered resv x ∨ Covered S (x + pptrBaseOffset)
  length : l.length ≤ resv.length + S.length

/-- The sweep, with the available regions `A` and the reserved ones `R` to come. It has marked
`D`, and inserted `F` in front of `k` empty entries. When there are none, it may not have marked
everything, but then the boot stops. If the sweep is right, what is left of the regions to come is
still to be inserted. -/
structure Sweeping (available reserved resv A R D F : List Region) (k : ℕ) (s : BootMem) :
    Prop where
  avail : Ordered A
  ordered : Ordered R
  inside : ∀ q ∈ A ++ R, Inside q
  devices : ∀ q ∈ A ++ R, ∀ x, Covered resv x → x + pptrBaseOffset ∉ q
  split : live reserved = D ++ live R
  free : Ordered F
  filled : ∀ f ∈ F, f.start < f.stop ∧ Inside f
  before : ∀ f ∈ F, ∀ a ∈ A, f.stop ≤ a.start
  passed : ∀ q ∈ D ++ F, (∀ a ∈ A, q.start ≤ a.start) ∧ ∀ r ∈ R, q.stop ≤ r.start
  freemem : s.freemem = F ++ List.replicate k regEmpty
  length : F.length + k = maxNumFreememReg
  marks : 0 < k → Marks resv (D ++ F) s.reserved
  exact : Sweepable available reserved → F ++ pieces A (live R) = freePieces available reserved

/-- Marking a region changes the reserved ones only. -/
theorem markReserved_returns (hin : Inside p) (hlt : p.start < p.stop) :
    ∃ l, markReserved cfg p s = .ok { s with reserved := l } := by
  have hreg := pptrToPaddrReg_lt hin hlt
  unfold markReserved
  generalize pptrToPaddrReg p = reg at hreg
  unfold reserveRegion
  rw [assert_eq hreg.le, ok_bind, if_neg hreg.ne]
  exact ⟨_, rfl⟩

variable (hl : Layout cfg available reserved resv)

include hl in
theorem Marks.add (h : Marks resv S s.reserved) (hin : Inside p) (hlt : p.start < p.stop)
    (hdev : ∀ x, Covered resv x → x + pptrBaseOffset ∉ p)
    (hout : ∀ q ∈ S, q.start ≤ p.start ∨ p.stop ≤ q.start)
    (hroom : S.length + 1 < maxNumFreememReg + maxReserved)
    (hmem : S'.Perm (p :: S)) (heq : markReserved cfg p s = .ok s') :
    Marks resv S' s'.reserved := by
  have hlen := h.length
  have hdevices := hl.devices_length
  obtain ⟨l, heq', hmerged⟩ := @markReserved_eq cfg s p hin hlt h.sorted (fun e he => by
    rcases h.starts e he with ⟨d, hd, hstart⟩ | ⟨q, hq, hstart⟩
    · have hnot := hdev d.start ⟨d, hd, le_refl _, hl.devices_gapped.lt d hd⟩
      rw [mem_iff] at hnot
      omega
    · have := hout q hq
      omega) (by
    unfold BootConfig.maxNumResvReg maxNumResvReg
    unfold maxReserved at hroom
    omega)
  obtain rfl := Except.ok.inj (heq.symm.trans heq')
  have hcov : ∀ x, Covered S' x ↔ x ∈ p ∨ Covered S x := fun x =>
    (covered_perm hmem).trans covered_cons
  refine ⟨hmerged.sorted, fun e he => ?_, fun x => ?_, ?_⟩
  · obtain ⟨q, hq, hstart⟩ := hmerged.starts e he
    rw [hstart]
    rcases mem_cons.1 hq with rfl | hq
    · refine .inr ⟨p, hmem.mem_iff.2 mem_cons_self, ?_⟩
      unfold pptrToPaddrReg
      dsimp only
      rw [pptrToPaddr_eq hin.1, Nat.sub_add_cancel hin.1.1]
    · refine (h.starts q hq).imp_right ?_
      rintro ⟨r, hr, heq⟩
      exact ⟨r, hmem.mem_iff.2 (mem_cons_of_mem p hr), heq⟩
  · rw [hmerged.covered, covered_cons, mem_pptrToPaddrReg hin, h.covered, hcov]
    exact or_left_comm
  · have := hmerged.length
    rw [length_cons] at this
    rw [hmem.length_eq, length_cons]
    dsimp only
    omega

/-! ### Steps -/

/-- The sweep ends, with all regions behind it. -/
def Sweeps (available reserved resv : List Region) (x : Except Failure BootMem) : Prop :=
  ∃ t D F k, x = .ok t ∧ Sweeping available reserved resv [] [] D F k t

namespace Sweeping

/-- An available region of which nothing is left. -/
theorem tail (h : Sweeping available reserved resv (a :: A) R D F k s)
    (hpieces : a.minus (live R) = []) : Sweeping available reserved resv A R D F k s :=
  { h with
    avail := (ordered_cons.1 h.avail).2.2
    inside := fun q hq => h.inside q (mem_cons_of_mem a hq)
    devices := fun q hq => h.devices q (mem_cons_of_mem a hq)
    before := fun f hf => (forall_mem_cons.1 (h.before f hf)).2
    passed := fun q hq => ⟨(forall_mem_cons.1 (h.passed q hq).1).2, (h.passed q hq).2⟩
    exact := fun hs => by
      rw [← h.exact hs, pieces_cons, hpieces, nil_append] }

theorem sub_tail {q : Region} (hq : q ∈ A ++ R) : q ∈ A ++ r :: R :=
  (mem_append.1 hq).elim (mem_append_left _) fun hq => mem_append_right _ (mem_cons_of_mem r hq)

theorem skip (h : Sweeping available reserved resv A (r :: R) D F k s) (heq : ¬r.start < r.stop) :
    Sweeping available reserved resv A R D F k s := by
  have hlive : live (r :: R) = live R := filter_cons_of_neg (by simpa using heq)
  exact
  { h with
    ordered := (ordered_cons.1 h.ordered).2.2
    inside := fun q hq => h.inside q (sub_tail hq)
    devices := fun q hq => h.devices q (sub_tail hq)
    split := by rw [h.split, hlive]
    passed := fun q hq => ⟨(h.passed q hq).1, (forall_mem_cons.1 (h.passed q hq).2).2⟩
    exact := fun hs => by rw [← h.exact hs, hlive] }

section Trim

variable (h : Sweeping available reserved resv (a :: A) R D F k s) (hle : a.start ≤ e)

include h hle

theorem trim_inside (hstop : e ≤ a.stop) : ∀ q ∈ ({ a with start := e } :: A) ++ R, Inside q := by
  obtain ⟨⟨h1, h2⟩, hrest⟩ := forall_mem_cons.1 h.inside
  exact forall_mem_cons.2 ⟨⟨⟨h1.1.trans hle, hstop.trans h2.2⟩, h2⟩, hrest⟩

theorem trim_devices : ∀ q ∈ ({ a with start := e } :: A) ++ R, ∀ x, Covered resv x →
    x + pptrBaseOffset ∉ q := by
  obtain ⟨ha, hrest⟩ := forall_mem_cons.1 h.devices
  exact forall_mem_cons.2 ⟨fun x hx hc => ha x hx ⟨hle.trans hc.1, hc.2⟩, hrest⟩

theorem trim_before : ∀ f ∈ F, ∀ b ∈ { a with start := e } :: A, f.stop ≤ b.start := by
  intro f hf
  obtain ⟨ha, hrest⟩ := forall_mem_cons.1 (h.before f hf)
  exact forall_mem_cons.2 ⟨ha.trans hle, hrest⟩

theorem trim_passed : ∀ q ∈ D ++ F, (∀ b ∈ { a with start := e } :: A, q.start ≤ b.start) ∧
    ∀ r ∈ R, q.stop ≤ r.start := by
  intro q hq
  obtain ⟨ha, hrest⟩ := forall_mem_cons.1 (h.passed q hq).1
  exact ⟨forall_mem_cons.2 ⟨ha.trans hle, hrest⟩, (h.passed q hq).2⟩

/-- The start of an available region moves up. -/
theorem trim (hstop : e ≤ a.stop)
    (hpieces : a.minus (live R) = minus { a with start := e } (live R)) :
    Sweeping available reserved resv ({ a with start := e } :: A) R D F k s :=
  { h with
    avail := Ordered.trim h.avail hstop
    inside := h.trim_inside hle hstop
    devices := h.trim_devices hle
    before := h.trim_before hle
    passed := h.trim_passed hle
    exact := fun hs => by rw [← h.exact hs, pieces_cons, pieces_cons, hpieces] }

end Trim

include hl

theorem length_done (h : Sweeping available reserved resv A R D F k s) :
    D.length + (live R).length ≤ maxReserved := by
  rw [← length_append, ← h.split]
  exact (length_filter_le _ _).trans hl.reserved_length

theorem mark {f : BootMem → Except Failure BootMem}
    (h : Sweeping available reserved resv A (r :: R) D F k s) (hlt : r.start < r.stop)
    (hA : ∀ a ∈ A, r.start ≤ a.start)
    (hpieces : Sweepable available reserved → pieces A (r :: live R) = pieces A (live R))
    (hf : ∀ s', Sweeping available reserved resv A R (D ++ [r]) F k s' →
      Sweeps available reserved resv (f s')) :
    Sweeps available reserved resv (markReserved cfg r s >>= f) := by
  have hr : r ∈ A ++ r :: R := mem_append_right A mem_cons_self
  have hdone := h.length_done hl
  rw [live_cons_of_lt hlt, length_cons] at hdone
  obtain ⟨l, heq⟩ := @markReserved_returns cfg s r (h.inside r hr) hlt
  rw [heq, ok_bind]
  refine hf _ ⟨h.avail, (ordered_cons.1 h.ordered).2.2, fun q hq => h.inside q (sub_tail hq),
    fun q hq => h.devices q (sub_tail hq), ?_, h.free, h.filled, h.before, ?_, h.freemem, h.length,
    fun hk => ?_, fun hs => ?_⟩
  · rw [h.split, live_cons_of_lt hlt, append_assoc, singleton_append]
  · intro q hq
    rw [append_assoc, singleton_append] at hq
    rcases mem_append.1 hq with hq | hq
    · have hq' := h.passed q (mem_append_left F hq)
      exact ⟨hq'.1, (forall_mem_cons.1 hq'.2).2⟩
    rcases mem_cons.1 hq with rfl | hq
    · exact ⟨hA, (ordered_cons.1 h.ordered).2.1⟩
    · have hq' := h.passed q (mem_append_right D hq)
      exact ⟨hq'.1, (forall_mem_cons.1 hq'.2).2⟩
  · have hlen := h.length
    refine (h.marks hk).add hl (h.inside r hr) hlt (h.devices r hr) (fun q hq => ?_) ?_ ?_ heq
    · -- what was marked ends before the region
      have hstop := (forall_mem_cons.1 (h.passed q hq).2).1
      have : q.start ≤ q.stop := by
        rcases mem_append.1 hq with hq | hq
        · have hlive : q ∈ live reserved := h.split ▸ mem_append_left _ hq
          exact (of_decide_eq_true (mem_filter.1 hlive).2).le
        · exact (h.filled q hq).1.le
      omega
    · rw [length_append]
      omega
    · rw [append_assoc, singleton_append]
      exact perm_middle
  · rw [← h.exact hs, live_cons_of_lt hlt, hpieces hs]

/-- A piece at the start of the first available region is inserted, if there is an entry. -/
theorem insert {f : Bool × BootMem → Except Failure BootMem}
    (h : Sweeping available reserved resv (a :: A) R D F k s) (hlt : a.start < e)
    (hle : e ≤ a.stop) (hR : ∀ r ∈ R, e ≤ r.start)
    (hpieces : a.minus (live R) = ⟨a.start, e⟩ :: minus ⟨e, a.stop⟩ (live R))
    (hf : ∀ ok s' F' k',
      Sweeping available reserved resv ({ a with start := e } :: A) R D F' k' s' →
      Sweeps available reserved resv (f (ok, s'))) :
    Sweeps available reserved resv (insertRegion cfg { a with stop := e } s >>= f) := by
  obtain ⟨h1, h2⟩ := h.inside a mem_cons_self
  have hin : Inside { a with stop := e } := ⟨h1, h1.1.trans hlt.le, hle.trans h2.2⟩
  have hlen := h.length
  have hexact : Sweepable available reserved → F ++ ⟨a.start, e⟩ ::
      pieces ({ a with start := e } :: A) (live R) = freePieces available reserved := by
    intro hs
    rw [← h.exact hs, pieces_cons, pieces_cons, hpieces, cons_append]
  have htrim : ∀ F' k' s', _ := fun F' k' s' => @Sweeping.mk available reserved resv
    ({ a with start := e } :: A) R D F' k' s' (Ordered.trim h.avail hle) h.ordered
    (h.trim_inside hlt.le hle) (h.trim_devices hlt.le) h.split
  have hafter : ∀ b ∈ A, e ≤ b.start := fun b hb =>
    hle.trans ((ordered_cons.1 h.avail).2.1 b hb)
  have hbefore := h.trim_before hlt.le
  have hpassed := h.trim_passed hlt.le
  unfold insertRegion
  rw [assert_eq hlt.le, isRegEmpty_eq_false hlt, h.freemem]
  cases k with
  | zero =>
    -- there is no entry left
    rw [replicate_zero, append_nil, fillEmpty_eq_none fun f hf => (h.filled f hf).1]
    refine hf false s F 0 (htrim F 0 s h.free h.filled hbefore hpassed h.freemem h.length
      (fun hk => absurd hk (lt_irrefl 0)) fun hs => ?_)
    have hfull := hs.entries
    rw [← hexact hs, length_append] at hfull
    omega
  | succ k =>
    rw [fillEmpty_append fun f hf => (h.filled f hf).1]
    obtain ⟨l, hmark⟩ := @markReserved_returns cfg s _ hin hlt
    have hdone := h.length_done hl
    refine (congrArg (Sweeps available reserved resv) (by rw [hmark]; rfl)).mpr
      (hf true ⟨l, F ++ { a with stop := e } :: List.replicate k regEmpty⟩ _ k
        (htrim (F ++ [{ a with stop := e }]) k _ ?_ ?_ ?_ ?_ (by simp) ?_ (fun hk => ?_) ?_))
    · refine ordered_append.2 ⟨h.free, ordered_cons.2 ⟨hlt.le, forall_mem_nil _, Ordered.nil⟩, ?_⟩
      intro f hf q hq
      rw [mem_singleton.1 hq]
      exact h.before f hf a mem_cons_self
    · exact forall_mem_append.2 ⟨h.filled, forall_mem_singleton.2 ⟨hlt, hin⟩⟩
    · refine forall_mem_append.2 ⟨hbefore, forall_mem_singleton.2 ?_⟩
      exact forall_mem_cons.2 ⟨le_refl e, hafter⟩
    · rw [← append_assoc]
      refine forall_mem_append.2 ⟨hpassed, forall_mem_singleton.2 ⟨?_, hR⟩⟩
      exact forall_mem_cons.2 ⟨hlt.le, fun b hb => hlt.le.trans (hafter b hb)⟩
    · rw [length_append, length_singleton]
      omega
    · change Marks resv _ ({ s with reserved := l } : BootMem).reserved
      refine (h.marks k.succ_pos).add hl hin hlt (fun x hx hc => ?_) (fun q hq => ?_) ?_ ?_ hmark
      · exact h.devices a mem_cons_self x hx ⟨hc.1, lt_of_lt_of_le hc.2 hle⟩
      · exact .inl ((h.passed q hq).1 a mem_cons_self)
      · rw [length_append]
        omega
      · rw [← append_assoc]
        exact perm_append_singleton _ _
    · intro hs
      rw [← hexact hs, append_assoc, singleton_append]

/-! ### Runs -/

theorem reserveRest (h : Sweeping available reserved resv [] R D F k s) :
    Sweeps available reserved resv (Boot.reserveRest cfg R s) := by
  induction R generalizing D s with
  | nil => exact ⟨s, D, F, k, rfl, h⟩
  | cons r R ih =>
    rw [Boot.reserveRest]
    split
    next hlt => exact h.mark hl hlt nofun (fun _ => rfl) fun s' => ih
    next hlt => exact ih (h.skip hlt)

theorem insertRest (h : Sweeping available reserved resv A [] D F k s) :
    Sweeps available reserved resv (Boot.insertRest cfg A s) := by
  induction A generalizing F k s with
  | nil => exact ⟨s, D, F, k, rfl, h⟩
  | cons a A ih =>
    rw [Boot.insertRest]
    by_cases hlt : a.start < a.stop
    · rw [if_pos hlt, bind_map_left]
      refine h.insert hl hlt (le_refl _) nofun ?_ fun ok s' F' k' h' => ih (h'.tail ?_)
      · exact (clip_eq_self hlt).trans (congrArg _ (clip_eq_nil (le_refl _)).symm)
      · exact clip_eq_nil (le_refl _)
    · rw [if_neg hlt]
      exact ih (h.tail (minus_of_le _ (not_lt.1 hlt)))

theorem sweep {fuel : ℕ} (h : Sweeping available reserved resv A R D F k s)
    (hfuel : A.length + R.length ≤ fuel) (hsep : Sweepable available reserved → Separable A R) :
    Sweeps available reserved resv (Boot.sweep cfg fuel A R s) := by
  fun_induction Boot.sweep cfg fuel A R s generalizing D F k with
  | case1 => exact h.reserveRest hl
  | case2 => exact h.insertRest hl
  | case3 => simp at hfuel
  | case4 fuel a A r R s hempty ih =>
    exact ih (h.skip (by omega)) (Nat.le_of_succ_le_succ hfuel) fun hs => (hsep hs).tail_right
  | case5 fuel a A r R s hne hge ih =>
    exact ih (h.tail (minus_of_le _ hge)) (by simp at hfuel ⊢; omega) fun hs => (hsep hs).tail_left
  | case6 fuel a A r R s hne halt hbelow ih =>
    obtain ⟨hr, -, -⟩ := ordered_cons.1 h.ordered
    have hbefore : ∀ b ∈ a :: A, r.stop ≤ b.start := by
      refine forall_mem_cons.2 ⟨hbelow, fun b hb => ?_⟩
      have := (ordered_cons.1 h.avail).2.1 b hb
      omega
    exact h.mark hl (by omega) (fun b hb => hr.trans (hbefore b hb))
      (fun _ => pieces_of_before hr hbefore) fun s' h' =>
        ih s' h' (Nat.le_of_succ_le_succ hfuel) fun hs => (hsep hs).tail_right
  | case7 fuel a A r R s hne halt _ habove ih =>
    obtain ⟨hr, hlater, -⟩ := ordered_cons.1 h.ordered
    refine h.insert hl (not_le.1 halt) (le_refl _)
      (forall_mem_cons.2 ⟨habove, fun q hq => (habove.trans hr).trans (hlater q hq)⟩) ?_
      fun ok s' F' k' h' => ih s' (h'.tail (minus_of_le _ (le_refl _))) (by simp at hfuel ⊢; omega)
        fun hs => (hsep hs).tail_left
    rw [live_cons_of_lt (by omega), minus_of_after (not_le.1 halt) hr habove,
      minus_of_le _ (le_refl _)]
  | case8 fuel a A r R s hne halt _ _ hfirst b =>
    rename_i ih
    -- the reserved region takes the start of the available one
    obtain ⟨ha, hafter, -⟩ := ordered_cons.1 h.avail
    have hrlt : r.start < r.stop := by omega
    have hmeet : a.start < r.stop := by omega
    have hb : ∀ R' : List Region, b.minus (r :: R') = b.minus R' := by
      intro R'
      rcases le_total r.stop a.stop with hle | hle
      · exact minus_of_before hrlt.le (le_min hle (le_refl _))
      · have hempty : a.stop ≤ min a.stop r.stop := le_min (le_refl _) hle
        rw [minus_of_le _ hempty, minus_of_le _ hempty]
    have htrim := h.trim (e := min a.stop r.stop) (le_min ha hmeet.le) (min_le_left _ _)
      (by rw [live_cons_of_lt hrlt, minus_of_start hfirst hmeet]; exact (hb _).symm)
    refine htrim.mark hl hrlt (forall_mem_cons.2 ⟨?_, fun q hq => ?_⟩) (fun hs => ?_) fun s' h' =>
      ih s' h' (Nat.le_of_succ_le_succ hfuel) fun hs => (hsep hs).trim h.ordered hrlt
        (le_min ha hmeet.le) (min_le_right _ _)
    · exact le_min (hfirst.trans ha) hrlt.le
    · have := hafter q hq
      omega
    · rw [pieces_cons, pieces_cons,
        pieces_of_separable h.avail (hsep hs) hrlt (not_le.1 halt) hfirst hmeet]
      exact congrArg (· ++ _) (hb _)
  | case9 fuel a A r R s hne halt _ hin hfirst ih ih' =>
    obtain ⟨hr, hlater, -⟩ := ordered_cons.1 h.ordered
    obtain ⟨ha, hafter, -⟩ := ordered_cons.1 h.avail
    have hrlt : r.start < r.stop := by omega
    have hmid : minus ⟨r.start, a.stop⟩ (live (r :: R)) = minus ⟨r.stop, a.stop⟩ (live R) := by
      rw [live_cons_of_lt hrlt, minus_of_start (r := r) (a := ⟨r.start, a.stop⟩) (le_refl _) hrlt]
      rcases le_total r.stop a.stop with hle | hle
      · rw [min_eq_right hle]
      · rw [min_eq_left hle, minus_of_le _ (le_refl _), minus_of_le _ hle]
    rw [assert_eq (not_le.1 hin), ok_bind]
    refine h.insert hl (not_le.1 hfirst) (not_le.1 hin).le
      (forall_mem_cons.2 ⟨le_refl _, fun q hq => hr.trans (hlater q hq)⟩) ?_
      fun ok s' F' k' h' => ?_
    · rw [hmid, live_cons_of_lt hrlt, minus_of_inside (not_le.1 hfirst) (not_le.1 hin) hr]
    dsimp only
    split
    · -- the rest of the available region comes after the reserved one
      rename_i hlast
      have hbefore : ∀ b ∈ ({ a with start := r.stop } : Region) :: A, r.stop ≤ b.start :=
        forall_mem_cons.2 ⟨le_refl _, fun b hb => hlast.le.trans (hafter b hb)⟩
      have htrim := h'.trim (e := r.stop) hr hlast.le (by
        rw [hmid, live_cons_of_lt hrlt, minus_of_before hr (le_refl _)])
      exact htrim.mark hl hrlt (fun b hb => hr.trans (hbefore b hb))
        (fun _ => pieces_of_before hr hbefore) fun s'' h'' =>
          ih s'' h'' (Nat.le_of_succ_le_succ hfuel) fun hs =>
            (hsep hs).trim h.ordered hrlt (by omega) (le_refl _)
    · rename_i hlast
      refine ih' s' (h'.tail ?_) (by simp at hfuel ⊢; omega) fun hs => (hsep hs).tail_left
      rw [hmid, minus_of_le _ (not_lt.1 hlast)]

end Sweeping

include hl in
/-- The sweep of `init_freemem`. -/
theorem Layout.sweep_spec : Sweeps available reserved resv
    (sweep cfg ((availReg available).length + reserved.length) (availReg available) reserved
      ⟨resv, List.replicate maxNumFreememReg regEmpty⟩) := by
  refine Sweeping.sweep hl (D := []) (F := []) (k := maxNumFreememReg) ?_ (le_refl _)
    fun hs => hs.separable
  exact
    { avail := hl.ordered_availReg
      ordered := hl.reserved_ordered
      inside := forall_mem_append.2 ⟨hl.inside_availReg, hl.reserved_inside⟩
      devices := by
        intro q hq x hx hc
        obtain ⟨hav, hres⟩ := hl.devices_apart x hx
        rcases mem_append.1 hq with hq | hq
        · exact hav (hl.covered_availReg.1 ⟨q, hq, hc⟩)
        · exact hres ⟨q, hq, hc⟩
      split := rfl
      free := Ordered.nil
      filled := nofun
      before := nofun
      passed := nofun
      freemem := rfl
      length := Nat.zero_add _
      marks := fun _ => ⟨.of_gapped hl.devices_gapped, fun e he => .inl ⟨e, he, rfl⟩,
        fun x => (or_iff_left covered_nil).symm, le_refl _⟩
      exact := fun _ => rfl }

end SeL4Kernel.Boot
