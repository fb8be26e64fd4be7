import Mathlib.Data.List.GetD
import Mathlib.Data.List.Induction
import SeL4Kernel.Boot.Rootserver

/-!
# Free memory

`insert_region` and `init_freemem` of `kernel/boot.c`. The sweep over the available and the
reserved regions inserts the pieces that are left of the available ones, in order, and marks
everything it has seen as reserved. It is right if no reserved region reaches from the start of
what is left of an available region into a later one (`Separable`), since it trims the first of
the two only. The objects of the root server are taken from the last piece that they fit into
(`fitRootserver_spec`).
-/

namespace SeL4Kernel.Boot

open List Range

/-- What `ndks_boot` knows of the memory. -/
structure BootMem where
  reserved : List Region
  freemem : List Region
  deriving DecidableEq, Repr

/-- `REG_EMPTY`. -/
def regEmpty : Region := ⟨0, 0⟩

def isRegEmpty (reg : Region) : Bool := reg.start = reg.stop

variable (cfg : BootConfig)

def BootConfig.maxNumResvReg : ℕ := Boot.maxNumResvReg cfg.kernelDevices

/-- Marks a region as reserved; all callers here ignore whether there was room. -/
def markReserved (reg : Region) (s : BootMem) : Except Failure BootMem := do
  let (_, reserved) ← reserveRegion cfg.maxNumResvReg (pptrToPaddrReg reg) s.reserved
  return { s with reserved }

/-- Puts a region into the first empty entry. -/
def fillEmpty (reg : Region) : List Region → Option (List Region)
  | [] => none
  | f :: freemem =>
    if isRegEmpty f then some (reg :: freemem) else (fillEmpty reg freemem).map (f :: ·)

def insertRegion (reg : Region) (s : BootMem) : Except Failure (Bool × BootMem) := do
  assert (reg.start ≤ reg.stop)
  if isRegEmpty reg then
    return (true, s)
  match fillEmpty reg s.freemem with
  | some freemem =>
    let s ← markReserved cfg reg s
    return (true, { s with freemem })
  | none => return (false, s)

/-- `ceiling_kernel_window`. -/
def ceilingKernelWindow (p : ℕ) : ℕ := if pptrToPaddr p > paddrTop then pptrTop else p

def ceilingReg (reg : Region) : Region :=
  ⟨ceilingKernelWindow reg.start, ceilingKernelWindow reg.stop⟩

/-- The reserved regions that the sweep has not reached. -/
def reserveRest : List Region → BootMem → Except Failure BootMem
  | [], s => .ok s
  | r :: reserved, s => do
    let s ← if r.start < r.stop then markReserved cfg r s else .ok s
    reserveRest reserved s

/-- The available regions that the sweep has not reached. -/
def insertRest : List Region → BootMem → Except Failure BootMem
  | [], s => .ok s
  | a :: avail, s => do
    let s ← if a.start < a.stop then Prod.snd <$> insertRegion cfg a s else .ok s
    insertRest avail s

/-- The loop over the available and the reserved regions, and the two loops after it. -/
def sweep : ℕ → List Region → List Region → BootMem → Except Failure BootMem
  | _, [], reserved, s => reserveRest cfg reserved s
  | _, a :: avail, [], s => insertRest cfg (a :: avail) s
  | 0, _ :: _, _ :: _, _ => .error .outOfBounds
  | fuel + 1, a :: avail, r :: reserved, s =>
    if r.start = r.stop then sweep fuel (a :: avail) reserved s
    else if a.start ≥ a.stop then sweep fuel avail (r :: reserved) s
    else if r.stop ≤ a.start then do
      let s ← markReserved cfg r s
      sweep fuel (a :: avail) reserved s
    else if r.start ≥ a.stop then do
      let (_, s) ← insertRegion cfg a s
      sweep fuel avail (r :: reserved) s
    else if r.start ≤ a.start then do
      let a := { a with start := min a.stop r.stop }
      let s ← markReserved cfg r s
      sweep fuel (a :: avail) reserved s
    else do
      assert (r.start < a.stop)
      let (_, s) ← insertRegion cfg { a with stop := r.start } s
      if a.stop > r.stop then
        let s ← markReserved cfg r s
        sweep fuel ({ a with start := r.stop } :: avail) reserved s
      else sweep fuel avail (r :: reserved) s

/-- The loop that fits the objects of the root server into a region, from entry `i` down. -/
def fitRootserver (itVReg : Region) (extraBiSizeBits : ℕ) :
    ℕ → List Region → Except Failure (List Region × ℕ × Rootserver)
  | i, freemem =>
    let size := calculateRootserverSize cfg itVReg extraBiSizeBits
    let max := rootserverMaxSizeBits cfg extraBiSizeBits
    let reg := freemem.getD i regEmpty
    let start := roundDown (wordSub reg.stop size) max
    if start ≥ reg.start then do
      let rootserver ← createRootserverObjects cfg start itVReg extraBiSizeBits
      let freemem := if i < maxNumFreememReg then
        freemem.set (i + 1) ⟨word (start + size), reg.stop⟩ else freemem
      return (freemem.set i { reg with stop := start }, start, rootserver)
    else
      let freemem := if i < maxNumFreememReg then freemem.set (i + 1) reg else freemem
      match i with
      | 0 => .error .outOfBounds
      | i + 1 => fitRootserver itVReg extraBiSizeBits i freemem

/-- The last entry from `i` down that is not empty. -/
def lastNonempty (freemem : List Region) : ℕ → Except Failure ℕ
  | 0 => if isRegEmpty (freemem.getD 0 regEmpty) then .error .outOfBounds else .ok 0
  | i + 1 =>
    if isRegEmpty (freemem.getD (i + 1) regEmpty) then lastNonempty freemem i else .ok (i + 1)

/-- The checks of the reserved regions. -/
def checkReserved : List Region → Except Failure Unit
  | [] => .ok ()
  | [_] => .ok ()
  | a :: b :: rest => do
    assert (a.start ≤ a.stop)
    assert (a.stop ≤ b.start)
    checkReserved (b :: rest)

/-- The checks of the available regions. -/
def checkAvailable : List Region → Except Failure Unit
  | [] => .error .assertion
  | [_] => .ok ()
  | a :: b :: rest => do
    assert (a.start < a.stop)
    assert (a.stop ≤ b.start)
    checkAvailable (b :: rest)

/-- What is left when the boot has its objects: `start` is where they begin. -/
structure Booted where
  mem : BootMem
  start : ℕ
  rootserver : Rootserver
  deriving DecidableEq, Repr

def initFreemem (available reserved : List Region) (itVReg : Region) (extraBiSizeBits : ℕ)
    (resv : List Region) : Except Failure Booted := do
  checkReserved reserved
  checkAvailable available
  if available.length > maxNumFreememReg then
    .error .outOfBounds
  let availReg := available.map fun p => ceilingReg (paddrToPptrReg p)
  let s ← sweep cfg (availReg.length + reserved.length) availReg reserved
    { reserved := resv, freemem := List.replicate maxNumFreememReg regEmpty }
  if ¬isRegEmpty (s.freemem.getD (maxNumFreememReg - 1) regEmpty) then
    .error .halt
  let i ← lastNonempty s.freemem (maxNumFreememReg - 1)
  let (freemem, start, rootserver) ← fitRootserver cfg itVReg extraBiSizeBits i s.freemem
  return { mem := { s with freemem }, start, rootserver }

/-! ### Marking and inserting -/

variable {cfg} {R P A F : List Region} {s s' : BootMem} {k x start i extraBiSizeBits : ℕ}
  {r p a itVReg : Region}

/-- A region is marked if none starts inside of it. -/
theorem markReserved_eq (hin : Inside p) (hlt : p.start < p.stop) (h : Sorted s.reserved)
    (hout : ∀ e ∈ s.reserved,
      e.start + pptrBaseOffset ≤ p.start ∨ p.stop ≤ e.start + pptrBaseOffset)
    (hroom : s.reserved.length + 1 < cfg.maxNumResvReg) :
    ∃ l, markReserved cfg p s = .ok { s with reserved := l } ∧
      Merged (pptrToPaddrReg p :: s.reserved) l := by
  have hstart := pptrToPaddr_eq hin.1
  have hstop := pptrToPaddr_eq hin.2
  obtain ⟨l, heq, hmerged⟩ := @reserveRegion_merged (pptrToPaddrReg p) s.reserved
    cfg.maxNumResvReg h (pptrToPaddrReg_lt hin hlt) (fun e he => by
      have := hout e he
      have := hin.1.1
      have := hin.2.1
      unfold pptrToPaddrReg
      dsimp only
      omega) hroom
  refine ⟨l, ?_, hmerged⟩
  unfold markReserved
  rw [heq]
  rfl

theorem isRegEmpty_eq_false (h : r.start < r.stop) : isRegEmpty r = false := decide_eq_false h.ne

theorem fillEmpty_eq_none (hF : ∀ f ∈ F, f.start < f.stop) : fillEmpty p F = none := by
  induction F with
  | nil => rfl
  | cons f F ih =>
    rw [fillEmpty, isRegEmpty_eq_false (hF f mem_cons_self),
      ih fun g hg => hF g (mem_cons_of_mem f hg)]
    rfl

theorem fillEmpty_append (hF : ∀ f ∈ F, f.start < f.stop) :
    fillEmpty p (F ++ List.replicate (k + 1) regEmpty) =
      some (F ++ p :: List.replicate k regEmpty) := by
  induction F with
  | nil => rfl
  | cons f F ih =>
    rw [cons_append, fillEmpty, isRegEmpty_eq_false (hF f mem_cons_self),
      ih fun g hg => hF g (mem_cons_of_mem f hg)]
    rfl

/-! ### The sweep -/

/-- The regions that are not empty. -/
def live (R : List Region) : List Region := R.filter fun r => r.start < r.stop

theorem live_cons_of_lt (h : r.start < r.stop) : live (r :: R) = r :: live R :=
  filter_cons_of_pos (decide_eq_true h)

theorem covered_live : Covered (live R) x ↔ Covered R x := by
  constructor
  · rintro ⟨r, hr, hx⟩
    exact ⟨r, (mem_filter.1 hr).1, hx⟩
  · rintro ⟨r, hr, hx⟩
    exact ⟨r, mem_filter.2 ⟨hr, decide_eq_true (lt_of_le_of_lt hx.1 hx.2)⟩, hx⟩

theorem ordered_live (h : Ordered R) : Ordered (live R) :=
  ⟨fun r hr => h.le r ((mem_filter.1 hr).1), h.order.sublist filter_sublist⟩

/-- No reserved region that meets two available ones starts with what is left of the first:
there is memory before it, that no other reserved region takes. -/
def Separable (A R : List Region) : Prop :=
  ∀ r ∈ R, r.start < r.stop → A.Pairwise fun a b => r.Meets a → r.Meets b →
    a.start < r.start ∧ ∀ q ∈ R, q.start < q.stop → q.stop ≠ r.start

theorem Separable.tail_left (h : Separable (a :: A) R) : Separable A R := fun r hr hlt =>
  (pairwise_cons.1 (h r hr hlt)).2

theorem Separable.tail_right (h : Separable A (r :: R)) : Separable A R := by
  intro q hq hlt
  refine (h q (mem_cons_of_mem r hq) hlt).imp ?_
  intro a b hab ha hb
  obtain ⟨hstart, hends⟩ := hab ha hb
  exact ⟨hstart, fun p hp => hends p (mem_cons_of_mem r hp)⟩

/-- Trimming the first available region by the first reserved one. -/
theorem Separable.trim (h : Separable (a :: A) (r :: R)) (hR : Ordered (r :: R))
    (hlt : r.start < r.stop) (hle : a.start ≤ start) (hstop : start ≤ r.stop) :
    Separable ({ a with start } :: A) R := by
  intro q hq hqlt
  have hqr : r.stop ≤ q.start := (ordered_cons.1 hR).2.1 q hq
  have hsep := pairwise_cons.1 (h q (mem_cons_of_mem r hq) hqlt)
  rw [pairwise_cons]
  refine ⟨?_, ((Separable.tail_left h).tail_right q hq hqlt)⟩
  intro b hb hqa hqb
  obtain ⟨_, hends⟩ := hsep.1 b hb ⟨hqa.1, lt_of_le_of_lt hle hqa.2⟩ hqb
  have hne := hends r mem_cons_self hlt
  refine ⟨?_, fun p hp => hends p (mem_cons_of_mem r hp)⟩
  dsimp only
  omega

/-- A reserved region that starts before an available one takes nothing from the later ones. -/
theorem pieces_of_separable (hA : Ordered (a :: A)) (h : Separable (a :: A) (r :: R))
    (hlt : r.start < r.stop) (halt : a.start < a.stop) (hle : r.start ≤ a.start)
    (hmeet : a.start < r.stop) : pieces A (r :: live R) = pieces A (live R) := by
  have hbefore : ∀ b ∈ A, b.minus (r :: live R) = b.minus (live R) := by
    intro b hb
    have hab := (ordered_cons.1 hA).2.1 b hb
    by_cases hbe : b.start < b.stop
    · refine minus_of_before hlt.le ?_
      by_contra hc
      have hsep := (pairwise_cons.1 (h r mem_cons_self hlt)).1 b hb
        ⟨by omega, hmeet⟩ ⟨by omega, by omega⟩
      omega
    · rw [minus_of_le _ (not_lt.1 hbe), minus_of_le _ (not_lt.1 hbe)]
  clear hA h
  induction A with
  | nil => rfl
  | cons b A ih =>
    rw [pieces_cons, pieces_cons, hbefore b mem_cons_self,
      ih fun c hc => hbefore c (mem_cons_of_mem b hc)]

theorem Ordered.trim (h : Ordered (a :: A)) (hle : start ≤ a.stop) :
    Ordered ({ a with start } :: A) := by
  obtain ⟨_, hbefore, hA⟩ := ordered_cons.1 h
  exact ordered_cons.2 ⟨hle, hbefore, hA⟩

/-! ### Fitting the root server -/

theorem getD_append_empty (P : List Region) (i : ℕ) :
    (P ++ List.replicate k regEmpty).getD i regEmpty = P.getD i regEmpty := by
  by_cases hi : i < P.length
  · rw [getD_append _ _ _ _ hi]
  rw [getD_append_right _ _ _ _ (not_lt.1 hi), getD_eq_default P _ (not_lt.1 hi)]
  by_cases hk : i - P.length < k
  · exact getD_replicate _ hk
  · exact getD_eq_default _ _ (by rw [length_replicate]; omega)

theorem isRegEmpty_getD (hP : ∀ f ∈ P, f.start < f.stop) :
    isRegEmpty (P.getD i regEmpty) = decide (P.length ≤ i) := by
  by_cases hi : i < P.length
  · rw [getD_eq_getElem P _ hi, isRegEmpty_eq_false (hP _ (getElem_mem hi)),
      decide_eq_false (not_le.2 hi)]
  · rw [getD_eq_default P _ (not_lt.1 hi), decide_eq_true (not_lt.1 hi)]
    rfl

theorem lastNonempty_eq (hP : ∀ f ∈ P, f.start < f.stop) (hne : P ≠ []) (hi : P.length ≤ i + 1) :
    lastNonempty (P ++ List.replicate k regEmpty) i = .ok (P.length - 1) := by
  induction i with
  | zero =>
    rw [lastNonempty, getD_append_empty, isRegEmpty_getD hP, if_neg (by simpa using hne),
      show P.length - 1 = 0 by omega]
  | succ i ih =>
    rw [lastNonempty, getD_append_empty, isRegEmpty_getD hP]
    by_cases hlast : P.length ≤ i + 1
    · rw [if_pos (decide_eq_true hlast), ih hlast]
    · rw [if_neg (by simpa using hlast), show P.length - 1 = i + 1 by omega]

/-- A region that the objects fit into, aligned, at its end. -/
def RootFits (cfg : BootConfig) (itVReg : Region) (extraBiSizeBits : ℕ) (f : Region) : Prop :=
  f.start + calculateRootserverSize cfg itVReg extraBiSizeBits ≤ f.stop ∧
    f.start ≤ roundDown (f.stop - calculateRootserverSize cfg itVReg extraBiSizeBits)
      (rootserverMaxSizeBits cfg extraBiSizeBits)

instance (f : Region) : Decidable (RootFits cfg itVReg extraBiSizeBits f) :=
  inferInstanceAs (Decidable (_ ∧ _))

theorem roundDown_le (n b : ℕ) : roundDown n b ≤ n := Nat.div_mul_le_self n (2 ^ b)

theorem size_le_pptrBaseOffset (hextra : ExtraBits extraBiSizeBits) :
    calculateRootserverSize cfg itVReg extraBiSizeBits ≤ pptrBaseOffset := by
  rw [calculateRootserverSize_eq cfg hextra]
  exact le_trans (rootserverSum_le cfg hextra) (by decide)

/-- The difference of the code does not wrap in the kernel window. -/
theorem wordSub_eq_of_inside (hin : Inside p) {size : ℕ}
    (hsize : size ≤ pptrBaseOffset) : wordSub p.stop size = p.stop - size := by
  have h1 := hin.2.1
  have h2 := hin.2.2
  unfold pptrBaseOffset pptrTop at *
  unfold wordSub
  omega

/-- The objects that are created at the end of a region. -/
theorem rootserver_at_end (hextra : ExtraBits extraBiSizeBits) (hin : Inside p)
    (hstart : start = roundDown (p.stop - calculateRootserverSize cfg itVReg extraBiSizeBits)
      (rootserverMaxSizeBits cfg extraBiSizeBits)) (hge : p.start ≤ start) :
    start + calculateRootserverSize cfg itVReg extraBiSizeBits ≤ p.stop ∧
      ∃ rs, createRootserverObjects cfg start itVReg extraBiSizeBits = .ok rs ∧
        ∀ o ∈ rs.objects cfg itVReg extraBiSizeBits, ∀ x ∈ o,
          start ≤ x ∧ x < start + calculateRootserverSize cfg itVReg extraBiSizeBits := by
  have hle := roundDown_le (p.stop - calculateRootserverSize cfg itVReg extraBiSizeBits)
    (rootserverMaxSizeBits cfg extraBiSizeBits)
  have h1 := hin.1.1
  have h2 := hin.2.2
  have hpos : 0 < pptrBaseOffset := by decide
  have htop : pptrTop < 2 ^ 64 := by decide
  have hend : start + calculateRootserverSize cfg itVReg extraBiSizeBits ≤ p.stop := by omega
  have halign : 2 ^ rootserverMaxSizeBits cfg extraBiSizeBits ∣ start := by
    rw [hstart]
    exact Nat.dvd_mul_left _ _
  obtain ⟨rs, heq, hlaid⟩ :=
    createRootserverObjects_spec cfg (by omega) hextra (lt_of_le_of_lt hend (by omega)) halign
  refine ⟨hend, rs, heq, fun o ho x hx => ?_⟩
  have hmem := (hlaid.cuts.cover x).mpr ⟨o, ho, hx⟩
  exact ⟨hmem.1, hmem.2⟩

/-- What the loop over the entries leaves: one region is split around the objects. -/
structure Fitted (cfg : BootConfig) (itVReg : Region) (extraBiSizeBits : ℕ) (P G : List Region)
    (out : List Region × ℕ × Rootserver) : Prop where
  split : ∃ H f K, P = H ++ f :: K ∧ f.start ≤ out.2.1 ∧
    out.2.1 + calculateRootserverSize cfg itVReg extraBiSizeBits ≤ f.stop ∧
    out.1 = H ++ ⟨f.start, out.2.1⟩ ::
      ⟨out.2.1 + calculateRootserverSize cfg itVReg extraBiSizeBits, f.stop⟩ :: (K ++ G)
  objects : ∀ o ∈ out.2.2.objects cfg itVReg extraBiSizeBits, ∀ x ∈ o,
    out.2.1 ≤ x ∧ x < out.2.1 + calculateRootserverSize cfg itVReg extraBiSizeBits

/-- The objects go into the last region that they fit into, or the loop runs below the first
entry. -/
theorem fitRootserver_spec (hextra : ExtraBits extraBiSizeBits) (P : List Region) (hne : P ≠ [])
    (hin : ∀ f ∈ P, Inside f) (hlen : P.length ≤ maxNumFreememReg) (e : Region) (G : List Region) :
    (∃ out, fitRootserver cfg itVReg extraBiSizeBits (P.length - 1) (P ++ e :: G) = .ok out ∧
        Fitted cfg itVReg extraBiSizeBits P G out ∧
        ∃ f ∈ P, RootFits cfg itVReg extraBiSizeBits f) ∨
      fitRootserver cfg itVReg extraBiSizeBits (P.length - 1) (P ++ e :: G) =
        .error .outOfBounds ∧ ∀ f ∈ P, ¬RootFits cfg itVReg extraBiSizeBits f := by
  induction P using List.reverseRecOn generalizing e G with
  | nil => exact absurd rfl hne
  | append_singleton P f ih =>
    have hmem : f ∈ P ++ [f] := mem_append_right _ mem_cons_self
    have hf := hin f hmem
    rw [length_append, length_singleton] at hlen ⊢
    rw [Nat.add_sub_cancel, append_assoc, singleton_append]
    have hget : (P ++ f :: e :: G).getD P.length regEmpty = f := by
      rw [getD_append_right _ _ _ _ (le_refl _), Nat.sub_self]
      rfl
    have hset : ∀ q : Region, (P ++ f :: e :: G).set (P.length + 1) q = P ++ f :: q :: G := by
      intro q
      rw [set_append_right _ _ (by omega), Nat.add_sub_cancel_left]
      rfl
    have hlt : P.length < maxNumFreememReg := by omega
    rw [fitRootserver.eq_def]
    dsimp only
    rw [hget, hset, hset, if_pos hlt, if_pos hlt,
      wordSub_eq_of_inside hf (size_le_pptrBaseOffset hextra)]
    generalize hstart : roundDown (f.stop - calculateRootserverSize cfg itVReg extraBiSizeBits)
      (rootserverMaxSizeBits cfg extraBiSizeBits) = start
    by_cases hge : f.start ≤ start
    · obtain ⟨hend, rs, heq, hobj⟩ := rootserver_at_end hextra hf hstart.symm hge
      have hword : word (start + calculateRootserverSize cfg itVReg extraBiSizeBits) =
          start + calculateRootserverSize cfg itVReg extraBiSizeBits := by
        refine Nat.mod_eq_of_lt (lt_of_le_of_lt (hend.trans hf.2.2) (by decide))
      refine .inl ⟨(P ++ ⟨f.start, start⟩ ::
        ⟨start + calculateRootserverSize cfg itVReg extraBiSizeBits, f.stop⟩ :: G, start, rs), ?_,
        ⟨⟨P, f, [], rfl, hge, hend, rfl⟩, hobj⟩, f, hmem, by omega, hstart ▸ hge⟩
      rw [if_pos hge, heq, hword, set_append_right _ _ (le_refl _), Nat.sub_self]
      rfl
    · -- the region moves up, and the next one down is tried
      have hno : ¬RootFits cfg itVReg extraBiSizeBits f := fun hfit => hge (hstart ▸ hfit.2)
      rw [if_neg hge]
      cases hP : P.length with
      | zero =>
        rw [length_eq_zero_iff.1 hP]
        exact .inr ⟨rfl, forall_mem_singleton.2 hno⟩
      | succ n =>
        have hrest := ih (ne_nil_of_length_pos (by omega))
          (fun q hq => hin q (mem_append_left _ hq)) (by omega) f (f :: G)
        rw [hP] at hrest
        rcases hrest with ⟨out, heq, ⟨⟨H, q, K, hsplit, hqs, hqe, hout⟩, hobj⟩, g, hg, hfit⟩ |
          ⟨heq, hnone⟩
        · refine .inl ⟨out, heq, ⟨⟨H, q, K ++ [f], ?_, hqs, hqe, ?_⟩, hobj⟩, g,
            mem_append_left _ hg, hfit⟩
          · rw [hsplit, append_assoc, cons_append]
          · rw [hout, append_assoc, singleton_append]
        · exact .inr ⟨heq, forall_mem_append.2 ⟨hnone, forall_mem_singleton.2 hno⟩⟩

theorem lastNonempty_error : lastNonempty (List.replicate k regEmpty) i = .error .outOfBounds := by
  have hempty : ∀ i, isRegEmpty ((List.replicate k regEmpty).getD i regEmpty) = true := by
    intro i
    have := getD_append_empty (k := k) [] i
    rw [nil_append] at this
    rw [this]
    rfl
  induction i with
  | zero =>
    rw [lastNonempty, hempty]
    rfl
  | succ i ih => rw [lastNonempty, hempty, if_pos rfl, ih]

end SeL4Kernel.Boot
