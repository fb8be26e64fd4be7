import SeL4Kernel.GuestRam.Regions

/-!
# Copies of guest RAM

`vm_ram_touch` goes through a range in pieces that do not leave a page, and calls a function for
each piece. `vm_guest_ram_read_callback` and `vm_guest_ram_write_callback` copy a piece, but do
not look at its offset: each piece is copied to or from the start of the buffer. So a copy is
right if and only if the range is empty or lies in one page.

In the last page of the address space the next page starts at 0, and the pieces are not those of
the range.
-/

namespace SeL4Kernel.GuestRam

/-- The memory of the guest and the buffer of the caller. -/
structure Copy where
  mem : Nat → UInt8
  buf : Nat → UInt8

def memcpy (dst : Nat → UInt8) (at_ : Nat) (src : Nat → UInt8) (start size : Nat) : Nat → UInt8 :=
  fun i => if at_ ≤ i ∧ i < at_ + size then src (start + (i - at_)) else dst i

def vmGuestRamReadCallback (vaddr size _offset : Nat) (c : Copy) : Copy :=
  { c with buf := memcpy c.buf 0 c.mem vaddr size }

def vmGuestRamWriteCallback (vaddr size _offset : Nat) (c : Copy) : Copy :=
  { c with mem := memcpy c.mem vaddr c.buf 0 size }

/-- `touch_access_callback`, where the page is mapped with the memory that it has. -/
def touchAccessCallback (touchFn : Nat → Nat → Nat → Copy → Copy) (c : Copy) (a : Access) : Copy :=
  let vmAddr := a.currentAddr / 4096 * 4096
  touchFn (vmAddr + (a.currentAddr - vmAddr)) a.size a.offset c

def touchAll (touchFn : Nat → Nat → Nat → Copy → Copy) (as : List Access) (c : Copy) : Copy :=
  as.foldl (touchAccessCallback touchFn) c

/-- The pieces follow each other from an address to the end of the range. -/
def Pieces (addr stop : Nat) : Nat → List Access → Prop
  | cur, [] => cur = stop
  | cur, a :: as => a.currentAddr = cur ∧ 0 < a.size ∧ a.offset = cur - addr ∧
    Pieces addr stop (cur + a.size) as

/-- What the accesses are for. -/
structure Copies (addr size : Nat) (as : List Access) : Prop where
  pieces : Pieces addr (addr + size) addr as
  read : ∀ c, touchAll vmGuestRamReadCallback as c =
    { c with buf := memcpy c.buf 0 c.mem addr size }
  write : ∀ c, touchAll vmGuestRamWriteCallback as c =
    { c with mem := memcpy c.mem addr c.buf 0 size }

variable {addr size stop cur fuel : Nat} {as : List Access} {c : Copy} {rs : List RamRegion}

theorem touchAccessCallback_eq (touchFn : Nat → Nat → Nat → Copy → Copy) (c : Copy) (a : Access) :
    touchAccessCallback touchFn c a = touchFn a.currentAddr a.size a.offset c := by
  rw [touchAccessCallback, Nat.add_sub_cancel' (Nat.div_mul_le_self ..)]

theorem memcpy_zero (dst src : Nat → UInt8) (at_ start : Nat) :
    memcpy dst at_ src start 0 = dst := by
  funext i
  exact if_neg (by omega)

theorem pieces_touchFrom (hstop : stop + 4096 ≤ 2 ^ 64) (haddr : addr ≤ cur) (hcur : cur ≤ stop)
    (hfuel : stop - cur ≤ fuel * 4096 - cur % 4096) :
    Pieces addr stop cur (touchFrom addr stop fuel cur) := by
  induction fuel generalizing cur with
  | zero => exact Nat.le_antisymm hcur (by omega)
  | succ fuel ih =>
    rw [touchFrom]
    split
    next hlt =>
      have hnext : (cur / 4096 * 4096 + 4096) % 2 ^ 64 = cur / 4096 * 4096 + 4096 := by omega
      dsimp only
      rw [hnext]
      refine ⟨rfl, ?_, ?_, ?_⟩
      · dsimp only
        omega
      · dsimp only
        omega
      · have hsize : cur + (min stop (cur / 4096 * 4096 + 4096) + 2 ^ 64 - cur) % 2 ^ 64 =
            min stop (cur / 4096 * 4096 + 4096) := by omega
        rw [hsize]
        exact ih (by omega) (Nat.min_le_left ..) (by omega)
    next hlt => exact Nat.le_antisymm hcur (Nat.not_lt.1 hlt)

theorem vmRamTouch_pieces (hend : addr + size + 4096 ≤ 2 ^ 64)
    (h : vmRamTouch rs addr size = some as) : Pieces addr (addr + size) addr as := by
  rw [vmRamTouch] at h
  split at h
  · cases h
    rw [Nat.mod_eq_of_lt (by omega)]
    exact pieces_touchFrom hend (Nat.le_refl addr) (by omega) (by omega)
  · cases h

/-- A range in one page is one piece. -/
theorem touchFrom_page (hlt : addr < stop) (hpage : stop ≤ addr / 4096 * 4096 + 4096)
    (haddr : addr + 4096 < 2 ^ 64) :
    touchFrom addr stop (fuel + 2) addr = [⟨addr, stop - addr, 0⟩] := by
  have hnext : min stop ((addr / 4096 * 4096 + 4096) % 2 ^ 64) = stop := by omega
  rw [touchFrom, if_pos hlt]
  dsimp only
  rw [hnext, touchFrom, if_neg (Nat.lt_irrefl stop),
    show (stop + 2 ^ 64 - addr) % 2 ^ 64 = stop - addr by omega,
    show (addr + 2 ^ 64 - addr) % 2 ^ 64 = 0 by omega]

/-- The first byte of the buffer comes from the last piece. -/
theorem read_overwritten (hp : Pieces addr stop cur as) (hcur : addr < cur)
    (hmem : ∀ x, addr < x → c.mem x = 0) (hbuf : c.buf 0 = 0 ∨ as ≠ []) :
    (touchAll vmGuestRamReadCallback as c).buf 0 = 0 := by
  induction as generalizing cur c with
  | nil => exact hbuf.resolve_right (not_not.2 rfl)
  | cons a as ih =>
    obtain ⟨ha, hsize, -, hp⟩ := hp
    rw [touchAll, List.foldl_cons, touchAccessCallback_eq]
    refine ih hp (by omega) hmem (.inl ?_)
    rw [vmGuestRamReadCallback]
    dsimp only
    rw [memcpy, if_pos ⟨Nat.le_refl 0, by omega⟩]
    exact hmem _ (by omega)

/-- Only one piece is copied right: the next one takes its place. -/
theorem Copies.rest_eq_nil {a : Access} (h : Copies addr size (a :: as)) : as = [] := by
  by_contra hne
  obtain ⟨-, hpos, -, hp⟩ := h.pieces
  have hread := congrArg (fun c => c.buf 0)
    (h.read ⟨fun x => if x = addr then 1 else 0, fun _ => 1⟩)
  have hzero : (touchAll vmGuestRamReadCallback (a :: as)
      ⟨fun x => if x = addr then 1 else 0, fun _ => 1⟩).buf 0 = 0 := by
    rw [touchAll, List.foldl_cons, touchAccessCallback_eq]
    exact read_overwritten hp (Nat.lt_add_of_pos_right hpos)
      (fun x hx => if_neg (Nat.ne_of_gt hx)) (.inr hne)
  have hone : memcpy (fun _ => 1) 0 (fun x => if x = addr then 1 else 0) addr size 0 = 1 := by
    rw [memcpy]
    split
    · exact if_pos rfl
    · rfl
  exact absurd (hzero.symm.trans (hread.trans hone)) (by decide)

/-- **Main result.** The pieces are those of the range if it ends below the last page, and the
copies are right if and only if the range is empty, or lies in one page below the last one. -/
theorem vmRamTouch_copies_iff (haddr : addr < 2 ^ 64) (h : vmRamTouch rs addr size = some as) :
    (addr + size + 4096 ≤ 2 ^ 64 → Pieces addr (addr + size) addr as) ∧
      (Copies addr size as ↔ size = 0 ∨ addr % 4096 + size ≤ 4096 ∧ addr + 4096 < 2 ^ 64) := by
  refine ⟨fun hend => vmRamTouch_pieces hend h, ?_⟩
  rw [vmRamTouch] at h
  split at h
  swap
  · cases h
  cases h
  refine ⟨fun hc => ?_, fun hc => ?_⟩
  · rw [touchFrom] at hc
    split at hc
    next hlt =>
      dsimp only at hc
      have hp := hc.pieces
      rw [hc.rest_eq_nil] at hp
      obtain ⟨-, -, -, hend⟩ := hp
      rw [Pieces] at hend
      dsimp only at hend
      omega
    next hlt =>
      have hnil : addr = addr + size := hc.pieces
      omega
  · rcases Nat.eq_zero_or_pos size with rfl | hpos
    · rw [Nat.add_zero, Nat.mod_eq_of_lt haddr, touchFrom, if_neg (Nat.lt_irrefl addr)]
      refine ⟨rfl, fun c => ?_, fun c => ?_⟩
      · rw [memcpy_zero]
        rfl
      · rw [memcpy_zero]
        rfl
    · obtain ⟨hpage, hlast⟩ := hc.resolve_left (Nat.ne_of_gt hpos)
      rw [Nat.mod_eq_of_lt (by omega), touchFrom_page (by omega) (by omega) hlast,
        Nat.add_sub_cancel_left]
      refine ⟨⟨rfl, hpos, (Nat.sub_self addr).symm, rfl⟩, fun c => ?_, fun c => ?_⟩
      · exact touchAccessCallback_eq vmGuestRamReadCallback c _
      · exact touchAccessCallback_eq vmGuestRamWriteCallback c _

/-- Two bytes in one page. -/
theorem two_bytes_copied : Copies 8192 2 [⟨8192, 2, 0⟩] :=
  (vmRamTouch_copies_iff (by decide)
    (show vmRamTouch [⟨0, 16384, true⟩] 8192 2 = some [⟨8192, 2, 0⟩] by decide)).2.2
    (.inr (by decide))

/-- A read of two bytes across the end of a page takes the second one for the first. -/
theorem second_page_at_start :
    vmRamTouch [⟨0, 16384, true⟩] 8191 2 = some [⟨8191, 1, 0⟩, ⟨8192, 1, 1⟩] ∧
      (touchAll vmGuestRamReadCallback [⟨8191, 1, 0⟩, ⟨8192, 1, 1⟩]
        ⟨fun x => if x = 8191 then 7 else 9, fun _ => 0⟩).buf 0 = 9 := by
  decide

end SeL4Kernel.GuestRam
