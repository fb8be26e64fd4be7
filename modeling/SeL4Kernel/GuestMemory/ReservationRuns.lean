import SeL4Kernel.GuestMemory.Reservations

/-!
# Runs of reservations

Whatever is reserved and freed, the reservations do not overlap, the anonymous ones are
aligned and lie in their regions, and a callback is invoked inside its reservation: provided
that rounding up leads neither behind the anonymous region nor beyond the last address, and
that a fault that starts in a regular reservation ends in it.
-/

namespace SeL4Kernel.GuestMemory

open List Range

variable {α : Type} {s s' : Memory} {addr size align : Nat} {r : Reservation}
  {n x y : ResTree Reservation} {t t' : List (ResTree Reservation)} {region : ResTree AnonRegion}
  {faultCallback : Option Nat} {a : List (ResTree AnonRegion)}

/-! ### Nodes -/

def Reservation.range (r : Reservation) : Range Nat := ⟨r.addr, r.addr + r.size⟩

def ResTree.range (n : ResTree α) : Range Nat := ⟨n.addr, n.addr + n.size⟩

theorem cmp_eq_zero {y : ResTree α} :
    reservationNodeCmp addr size y = 0 ↔
      addr < y.addr ∧ y.addr < addr + size ∨ y.addr ≤ addr ∧ addr < y.addr + y.size := by
  rw [reservationNodeCmp]
  split
  · split <;> simp <;> omega
  · split <;> simp <;> omega

/-- The search for an address finds a node that holds it. -/
theorem findMember_addr {t : List (ResTree α)} {n : ResTree α} (h : findMember addr 0 t = some n) :
    n ∈ t ∧ n.addr ≤ addr ∧ addr < n.addr + n.size := by
  have hcmp := List.find?_some h
  rw [decide_eq_true_iff, cmp_eq_zero] at hcmp
  exact ⟨mem_of_find?_eq_some h, by omega, by omega⟩

theorem treeAdd_perm (x : ResTree α) (t : List (ResTree α)) : (treeAdd x t).Perm (x :: t) := by
  induction t with
  | nil => exact .refl _
  | cons y t ih =>
    rw [treeAdd]
    split
    · exact .refl _
    · exact (ih.cons y).trans (.swap x y t)

theorem addMemoryReservationNode_spec {t t' : List (ResTree α)} {data : α} {calloc : Bool}
    (h : addMemoryReservationNode addr size data t calloc = some t') :
    t'.Perm ({ addr := addr, size := size, data := data } :: t) ∧
      ∀ y ∈ t, reservationNodeCmp addr size y ≠ 0 := by
  rw [addMemoryReservationNode] at h
  split at h
  · cases h
  rename_i hfind
  split at h
  · cases h
    refine ⟨treeAdd_perm _ t, fun y hy hc => ?_⟩
    exact List.find?_eq_none.mp hfind y hy (decide_eq_true hc)
  · cases h

/-- A node that is not empty does not compare equal to another. -/
def Clear (x y : ResTree α) : Prop :=
  (0 < x.size → reservationNodeCmp x.addr x.size y ≠ 0) ∧
    (0 < y.size → reservationNodeCmp y.addr y.size x ≠ 0)

theorem Clear.symm {x y : ResTree α} (h : Clear x y) : Clear y x := ⟨h.2, h.1⟩

/-- The comparison is not symmetric, but only an empty node compares equal to one that does not
compare equal to it. -/
theorem clear_of_cmp {x y : ResTree α} (h : reservationNodeCmp x.addr x.size y ≠ 0) :
    Clear x y := by
  refine ⟨fun _ => h, fun hy hc => h ?_⟩
  rw [cmp_eq_zero] at hc ⊢
  omega

/-- No node of the range is left after a removal. -/
theorem remove_exact (ht : t.Pairwise Clear) (hsize : 0 < size)
    (h : n ∈ removeMemoryReservationNode addr size t) : ¬(n.addr = addr ∧ n.size = size) := by
  rintro ⟨rfl, rfl⟩
  have hself : reservationNodeCmp n.addr n.size n = 0 := cmp_eq_zero.mpr (.inr ⟨by omega, by omega⟩)
  induction t with
  | nil => cases h
  | cons y t ih =>
    obtain ⟨hy, ht'⟩ := pairwise_cons.mp ht
    rw [removeMemoryReservationNode] at h
    split at h
    next hcmp =>
      split at h
      next hexact =>
        refine (hy n h).2 hsize ?_
        omega
      next hexact =>
        rcases mem_cons.mp h with rfl | h
        · exact hexact ⟨rfl, rfl⟩
        · exact (hy n h).2 hsize hcmp
    next hcmp =>
      rcases mem_cons.mp h with rfl | h
      · exact hcmp hself
      · exact ih ht' h

theorem removeMemoryReservationNode_sublist (addr size : Nat) (t : List (ResTree α)) :
    (removeMemoryReservationNode addr size t).Sublist t := by
  induction t with
  | nil => exact .refl _
  | cons y t ih =>
    rw [removeMemoryReservationNode]
    split
    · split
      · exact sublist_cons_self y t
      · exact .refl _
    · exact ih.cons_cons y

/-! ### Anonymous regions -/

/-- The reservations of the region lie in it one after the other. -/
structure RegionOk (n : ResTree AnonRegion) : Prop where
  addr : n.data.addr = n.addr
  size : n.data.size = n.size
  bound : n.addr + n.size < 2 ^ 64
  low : n.addr ≤ n.data.allocAddr
  high : n.data.allocAddr ≤ n.addr + n.size
  aligned : ∀ r ∈ n.data.reservations, r.align ∣ r.addr
  inside : ∀ r ∈ n.data.reservations, n.addr ≤ r.addr ∧ r.addr + r.size ≤ n.data.allocAddr
  apart : (n.data.reservations.map Reservation.range).Pairwise Apart

/-- Rounding up leads neither behind the region nor beyond the last address. -/
def Rounds (size align : Nat) (n : ResTree AnonRegion) : Prop :=
  size ≤ roundUpWord size 4096 ∧ n.data.allocAddr ≤ allocableAddr n.data align ∧
    allocableAddr n.data align ≤ n.data.addr + n.data.size

theorem dvd_roundUpWord {m b : Nat} (hb : b ∣ 2 ^ 64) : b ∣ roundUpWord m b := by
  rw [roundUpWord, Nat.dvd_mod_iff hb]
  exact dvd_roundUp (Nat.pos_of_dvd_of_pos hb (by decide))

theorem RegionOk.reserve (h : RegionOk region) (halign : align ∣ 2 ^ 64)
    (hroom : allocable (roundUpWord size 4096) align region = true)
    (hr : Rounds size align region) :
    RegionOk { region with data := region.data.reserve size align faultCallback } := by
  obtain ⟨hsize, hge, hle⟩ := hr
  have hroom := of_decide_eq_true hroom
  have haddr := h.addr
  have hsz := h.size
  have hbound := h.bound
  have hlow := h.low
  rw [freeAreaSize] at hroom
  have hend : allocableAddr region.data align + roundUpWord size 4096 ≤
      region.addr + region.size := by
    omega
  have halloc : (region.data.reserve size align faultCallback).allocAddr =
      allocableAddr region.data align + roundUpWord size 4096 := by
    exact Nat.mod_eq_of_lt (by omega)
  constructor
  · exact h.addr
  · exact h.size
  · exact h.bound
  · dsimp only
    omega
  · rw [halloc]
    omega
  · refine forall_mem_append.mpr ⟨h.aligned, forall_mem_singleton.mpr ?_⟩
    exact dvd_roundUpWord halign
  · refine forall_mem_append.mpr ⟨fun r hr => ?_, forall_mem_singleton.mpr ⟨?_, ?_⟩⟩
    · have := h.inside r hr
      dsimp only
      omega
    · dsimp only
      omega
    · dsimp only
      omega
  · rw [AnonRegion.reserve, map_append]
    refine pairwise_append.mpr ⟨h.apart, pairwise_singleton .., ?_⟩
    intro x hx y hy
    obtain ⟨r, hr, rfl⟩ := mem_map.mp hx
    cases mem_singleton.mp hy
    have := h.inside r hr
    exact apart_of_le (show r.addr + r.size ≤ allocableAddr region.data align by omega)

theorem reserveIn_spec (h : ∀ n ∈ a, RegionOk n) (halign : align ∣ 2 ^ 64)
    (hr : ∀ n, findAllocableAnonRegion a (roundUpWord size 4096) align = some n →
      Rounds size align n) :
    (∀ n ∈ reserveIn size align faultCallback a, RegionOk n) ∧
      (reserveIn size align faultCallback a).map ResTree.range = a.map ResTree.range := by
  induction a with
  | nil => exact ⟨h, rfl⟩
  | cons n a ih =>
    obtain ⟨hn, ha⟩ := forall_mem_cons.mp h
    rw [reserveIn]
    split
    next hroom =>
      have hfits := hr n (List.find?_cons_of_pos hroom)
      exact ⟨forall_mem_cons.mpr ⟨hn.reserve halign hroom hfits, ha⟩, rfl⟩
    next hroom =>
      obtain ⟨hok, hmap⟩ := ih ha fun m hm =>
        hr m (by rw [findAllocableAnonRegion, List.find?_cons_of_neg hroom]; exact hm)
      exact ⟨forall_mem_cons.mpr ⟨hn, hok⟩, by rw [map_cons, map_cons, hmap]⟩

/-! ### Runs -/

/-- The ranges of the address space that are reserved. -/
def Memory.vspace (s : Memory) : List (Range Nat) :=
  s.live.map Reservation.range ++ (s.anon.map ResTree.range ++ s.leaked)

/-- The live reservations. -/
def Memory.reservations (s : Memory) : List Reservation :=
  s.live ++ s.anon.flatMap fun n => n.data.reservations

inductive Op where
  | reserveAt (addr size : Nat) (faultCallback : Option Nat) (g : Grant)
  | makeAnon (addr size : Nat) (g : Grant)
  | reserveAnon (size align : Nat) (faultCallback : Option Nat) (g : Grant)
  | free (r : Reservation)

def step (s : Memory) : Op → Memory
  | .reserveAt addr size faultCallback g => vmReserveMemoryAt s addr size faultCallback g
  | .makeAnon addr size g => vmMemoryMakeAnon s addr size g
  | .reserveAnon size align faultCallback g => vmReserveAnonMemory s size align faultCallback g
  | .free r => vmFreeReservedMemory s r

/-- The address space manager grants only what is free. -/
def Granted (s : Memory) (addr size : Nat) (g : Grant) : Prop :=
  g.vspace = true → addr + size < 2 ^ 64 ∧ ∀ x ∈ s.vspace, Apart ⟨addr, addr + size⟩ x

/-- The calls that are considered. -/
def Asked (s : Memory) : Op → Prop
  | .reserveAt addr size _ g => Granted s addr size g
  | .makeAnon addr size g => Granted s addr size g
  | .reserveAnon size align _ _ => size < 2 ^ 64 ∧ ∃ k < 64, align = 2 ^ k
  | .free r => r ∈ s.reservations

/-- The condition on anonymous reservations. -/
def Fitting (s : Memory) : Op → Prop
  | .reserveAnon size align _ _ => ∀ n,
    findAllocableAnonRegion s.anon (roundUpWord size 4096) align = some n → Rounds size align n
  | _ => True

/-- The states after calls that satisfy `ok`. -/
inductive Reached (ok : Memory → Op → Prop) : Memory → Prop
  | init : Reached ok { regular := [], anon := [], live := [], leaked := [] }
  | step {s : Memory} {op : Op} (h : Reached ok s) (hasked : Asked s op) (hok : ok s op) :
    Reached ok (step s op)

structure Inv (s : Memory) : Prop where
  apart : s.vspace.Pairwise Apart
  clear : s.regular.Pairwise Clear
  owned : ∀ n ∈ s.regular, 0 < n.size → n.data ∈ s.live ∧ n.addr = n.data.addr ∧
    n.size = n.data.size
  region : ∀ n ∈ s.anon, RegionOk n

variable {g : Grant} {op : Op} {addr' size' : Nat} {mapped : Bool}

theorem Inv.reserveAt (h : Inv s) (hg : Granted s addr size g) :
    Inv (vmReserveMemoryAt s addr size faultCallback g) := by
  rw [vmReserveMemoryAt]
  split
  · exact h
  rename_i hc
  have hgrant := hg (by simpa using fun hv => hc (.inr (.inl hv)))
  dsimp only
  split
  · exact h
  rename_i regular hadd
  obtain ⟨hperm, hcmp⟩ := addMemoryReservationNode_spec hadd
  constructor
  · exact pairwise_cons.mpr ⟨hgrant.2, h.apart⟩
  · refine (hperm.pairwise_iff Clear.symm).mpr (pairwise_cons.mpr ⟨?_, h.clear⟩)
    exact fun y hy => clear_of_cmp (hcmp y hy)
  · intro n hn hpos
    rcases mem_cons.mp (hperm.mem_iff.mp hn) with rfl | hn
    · exact ⟨mem_cons_self, rfl, rfl⟩
    · obtain ⟨hlive, heq⟩ := h.owned n hn hpos
      exact ⟨mem_cons_of_mem _ hlive, heq⟩
  · exact h.region

theorem Inv.makeAnon (h : Inv s) (hg : Granted s addr size g) :
    Inv (vmMemoryMakeAnon s addr size g) := by
  have hinsert : ∀ l l' : List (Range Nat), s.vspace = l ++ l' → g.vspace = true →
      (l ++ ⟨addr, addr + size⟩ :: l').Pairwise Apart := by
    intro l l' heq hv
    have hall := pairwise_cons.mpr ⟨(hg hv).2, h.apart⟩
    rw [heq] at hall
    exact (perm_middle.pairwise_iff Apart.symm).mpr hall
  rw [vmMemoryMakeAnon]
  split
  · exact h
  rename_i hv
  have hv : g.vspace = true := by simpa using hv
  split
  · refine ⟨?_, h.clear, h.owned, h.region⟩
    have hl := hinsert (s.live.map Reservation.range ++ s.anon.map ResTree.range) s.leaked
      (by rw [Memory.vspace, append_assoc]) hv
    rwa [append_assoc] at hl
  · dsimp only
    split
    · exact h
    rename_i anon hadd
    obtain ⟨hperm, -⟩ := addMemoryReservationNode_spec hadd
    refine ⟨?_, h.clear, h.owned, fun n hn => ?_⟩
    · have hl := hinsert (s.live.map Reservation.range) _ rfl hv
      refine (List.Perm.pairwise_iff Apart.symm ?_).mpr hl
      exact ((hperm.map ResTree.range).append_right s.leaked).append_left _
    · rcases mem_cons.mp (hperm.mem_iff.mp hn) with rfl | hn
      · exact ⟨rfl, rfl, (hg hv).1, Nat.le_refl _, Nat.le_add_right .., nofun, nofun, .nil⟩
      · exact h.region n hn

theorem Inv.reserveAnon (h : Inv s) (halign : align ∣ 2 ^ 64)
    (hr : Fitting s (.reserveAnon size align faultCallback g)) :
    Inv (vmReserveAnonMemory s size align faultCallback g) := by
  rw [vmReserveAnonMemory]
  split
  · exact h
  split
  · exact h
  split
  · exact h
  obtain ⟨hok, hmap⟩ : (∀ n ∈ reserveIn size align faultCallback s.anon, RegionOk n) ∧ _ :=
    reserveIn_spec h.region halign hr
  refine ⟨?_, h.clear, h.owned, hok⟩
  have hapart := h.apart
  rw [Memory.vspace, ← hmap] at hapart
  exact hapart

theorem Inv.free (h : Inv s) : Inv (vmFreeReservedMemory s r) := by
  rw [vmFreeReservedMemory]
  split
  · exact h
  have hsub := removeMemoryReservationNode_sublist r.addr r.size s.regular
  refine ⟨?_, h.clear.sublist hsub, fun n hn hpos => ?_, h.region⟩
  · exact h.apart.sublist ((erase_sublist.map Reservation.range).append_right _)
  obtain ⟨hlive, haddr, hsize⟩ := h.owned n (hsub.subset hn) hpos
  refine ⟨(mem_erase_of_ne fun hc => ?_).mpr hlive, haddr, hsize⟩
  rw [hc] at haddr hsize
  exact remove_exact h.clear (hsize ▸ hpos) hn ⟨haddr, hsize⟩

theorem Inv.step (h : Inv s) (hasked : Asked s op) (hok : Fitting s op) : Inv (step s op) := by
  cases op with
  | reserveAt addr size faultCallback g => exact h.reserveAt hasked
  | makeAnon addr size g => exact h.makeAnon hasked
  | reserveAnon size align faultCallback g =>
    obtain ⟨-, k, hk, rfl⟩ := hasked
    exact h.reserveAnon (Nat.pow_dvd_pow 2 (Nat.le_of_lt hk)) hok
  | free r => exact h.free

theorem Reached.inv (h : Reached Fitting s) : Inv s := by
  induction h with
  | init => exact ⟨.nil, .nil, nofun, nofun⟩
  | step _ hasked hok ih => exact ih.step hasked hok

/-! ### Correctness -/

/-- A fault that starts in a regular reservation ends in it, unless it is larger. -/
def Ends (s : Memory) (addr size : Nat) : Prop :=
  ∀ n, findMember addr 0 s.regular = some n → size ≤ n.size → addr + size ≤ n.addr + n.size

structure Correct (s : Memory) : Prop where
  apart : (s.reservations.map Reservation.range).Pairwise Apart
  anon : ∀ n ∈ s.anon, ∀ r ∈ n.data.reservations,
    r.align ∣ r.addr ∧ n.addr ≤ r.addr ∧ r.addr + r.size ≤ n.addr + n.size
  fault : ∀ addr size mapped r addr' size', addr + size < 2 ^ 64 → Ends s addr size →
    vmMemoryHandleFault s addr size mapped = .callback r addr' size' →
      r ∈ s.reservations ∧ addr' = addr ∧ size' = size ∧ r.addr ≤ addr ∧
        addr + size ≤ r.addr + r.size

theorem faultReservation_callback {r' : Reservation}
    (h : faultReservation addr size mapped r = .callback r' addr' size') :
    r' = r ∧ addr' = addr ∧ size' = size := by
  rw [faultReservation] at h
  split at h
  · split at h <;> cases h
  · split at h <;> cases h
    exact ⟨rfl, rfl, rfl⟩

theorem Inv.reservations_apart (h : Inv s) :
    (s.reservations.map Reservation.range).Pairwise Apart := by
  obtain ⟨hlive, hrest, hcross⟩ := pairwise_append.mp h.apart
  have hanon := (pairwise_append.mp hrest).1
  -- a reservation of a region lies in it
  have hsub : ∀ n ∈ s.anon, ∀ r ∈ n.data.reservations, ∀ x ∈ r.range, x ∈ n.range := by
    intro n hn r hr x hx
    have hin := (h.region n hn).inside r hr
    have hhigh := (h.region n hn).high
    have hlo : r.addr ≤ x := hx.1
    have hhi : x < r.addr + r.size := hx.2
    exact ⟨show n.addr ≤ x by omega, show x < n.addr + n.size by omega⟩
  rw [Memory.reservations, map_append, map_flatMap]
  refine pairwise_append.mpr ⟨hlive, ?_, ?_⟩
  · rw [pairwise_flatMap]
    refine ⟨fun n hn => (h.region n hn).apart, ?_⟩
    refine (pairwise_map.mp hanon).imp_of_mem fun {n m} hn hm hnm a ha b hb x hxa hxb => ?_
    obtain ⟨r, hr, rfl⟩ := mem_map.mp ha
    obtain ⟨r', hr', rfl⟩ := mem_map.mp hb
    exact hnm x (hsub n hn r hr x hxa) (hsub m hm r' hr' x hxb)
  · intro a ha b hb x hxa hxb
    obtain ⟨n, hn, hb⟩ := mem_flatMap.mp hb
    obtain ⟨r, hr, rfl⟩ := mem_map.mp hb
    exact hcross a ha n.range (mem_append_left _ (mem_map_of_mem hn)) x hxa
      (hsub n hn r hr x hxb)

theorem Inv.fault (h : Inv s) (hends : Ends s addr size)
    (hf : vmMemoryHandleFault s addr size mapped = .callback r addr' size') :
    r ∈ s.reservations ∧ addr' = addr ∧ size' = size ∧ r.addr ≤ addr ∧
      addr + size ≤ r.addr + r.size := by
  rw [vmMemoryHandleFault] at hf
  split at hf
  next n hfind =>
    split at hf
    · cases hf
    rename_i hle
    obtain ⟨hmem, hlo, hhi⟩ := findMember_addr hfind
    obtain ⟨hlive, haddr, hsize⟩ := h.owned n hmem (by omega)
    obtain ⟨rfl, rfl, rfl⟩ := faultReservation_callback hf
    have := hends n hfind (by omega)
    exact ⟨mem_append_left _ hlive, rfl, rfl, by omega, by omega⟩
  next =>
    split at hf
    · cases hf
    rename_i n hfind
    split at hf
    · cases hf
    split at hf
    · cases hf
    rename_i r' hr'
    obtain ⟨rfl, rfl, rfl⟩ := faultReservation_callback hf
    have hin := List.find?_some hr'
    rw [decide_eq_true_iff] at hin
    refine ⟨mem_append_right _ (mem_flatMap.mpr
      ⟨n, (findMember_addr hfind).1, mem_of_find?_eq_some hr'⟩), rfl, rfl, hin⟩

/-- **Main result.** After calls whose rounding stays in the anonymous regions, the
reservations are disjoint, the anonymous ones aligned and in their regions, and a fault that
ends in the reservation where it starts reaches only callbacks of reservations that contain
it. -/
theorem reservations_correct (h : Reached Fitting s) : Correct s where
  apart := h.inv.reservations_apart
  anon n hn r hr := by
    have hok := h.inv.region n hn
    exact ⟨hok.aligned r hr, (hok.inside r hr).1, (hok.inside r hr).2.trans hok.high⟩
  fault _ _ _ _ _ _ _ hends hf := h.inv.fault hends hf

/-- Everything is granted. -/
def yes : Grant := { vspace := true, first := true, second := true }

/-- One regular reservation of a page. -/
def onePage : Memory :=
  step { regular := [], anon := [], live := [], leaked := [] } (.reserveAt 4096 4096 (some 1) yes)

/-- One anonymous region of two pages. -/
def twoPages : Memory :=
  step { regular := [], anon := [], live := [], leaked := [] } (.makeAnon 4096 8192 yes)

theorem onePage_reached : Reached Fitting onePage :=
  .step .init (fun _ => ⟨by decide, nofun⟩) trivial

/-- An anonymous region beside the page, and a reservation in it. -/
theorem page_and_region_correct :
    Correct (step (step onePage (.makeAnon 65536 65536 yes))
      (.reserveAnon 4096 8192 (some 2) yes)) := by
  refine reservations_correct (.step (.step onePage_reached (fun _ => ⟨by decide, ?_⟩) trivial)
    ⟨by decide, 13, by decide, rfl⟩ fun n hn => ?_)
  · intro x hx
    cases mem_singleton.mp hx
    exact (apart_of_le (by decide)).symm
  · cases hn
    exact ⟨by decide, by decide, by decide⟩

/-- A fault of four bytes at the last byte of a page reaches the callback of the page. An
alignment of 64 KiB leads behind a region of two pages, where the reservation is made. The
size `2 ^ 64 - 1` is rounded up to 0, and the reservation made. -/
theorem reservations_wrong :
    (Reached Fitting onePage ∧ ∃ r, vmMemoryHandleFault onePage 8191 4 false = .callback r 8191 4 ∧
      ∀ r' ∈ onePage.reservations, ¬8191 + 4 ≤ r'.addr + r'.size) ∧
    (Reached (fun _ _ => True) (step twoPages (.reserveAnon 4096 65536 (some 1) yes)) ∧
      ∃ n ∈ (step twoPages (.reserveAnon 4096 65536 (some 1) yes)).anon,
        ∃ r ∈ n.data.reservations, n.addr + n.size < r.addr) ∧
    Reached (fun _ _ => True) (step twoPages (.reserveAnon (2 ^ 64 - 1) 1 (some 1) yes)) ∧
      ∃ n ∈ (step twoPages (.reserveAnon (2 ^ 64 - 1) 1 (some 1) yes)).anon,
        ∃ r ∈ n.data.reservations, n.addr + n.size < r.addr + r.size := by
  have htwo : Reached (fun _ _ => True) twoPages :=
    .step .init (fun _ => ⟨by decide, nofun⟩) trivial
  refine ⟨⟨onePage_reached, _, rfl, by decide⟩,
    ⟨htwo.step ⟨by decide, 16, by decide, rfl⟩ trivial, ?_⟩,
    htwo.step ⟨by decide, 0, by decide, rfl⟩ trivial, ?_⟩
  · exact ⟨_, mem_singleton.mpr rfl, _, mem_singleton.mpr rfl, by decide⟩
  · exact ⟨_, mem_singleton.mpr rfl, _, mem_singleton.mpr rfl, by decide⟩

end SeL4Kernel.GuestMemory
