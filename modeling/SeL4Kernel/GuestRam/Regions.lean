import Mathlib.Data.List.Sort
import SeL4Kernel.Lib.Ranges

/-!
# The RAM regions of a guest

`libsel4vm/src/guest_ram.c`: the array `ram_regions` of a guest's memory. A region is
registered as free RAM; marking a range of it splits the region in three. After every change
the array is sorted by a comparison of type `int` and contiguous regions with the same flag
are joined.

Addresses are computed in words. The array can always grow, and the accesses of
`vm_ram_touch` to the pages of the guest succeed.
-/

namespace SeL4Kernel.GuestRam

/-- `vm_ram_region_t`. -/
structure RamRegion where
  start : Nat
  size : Nat
  allocated : Bool
  deriving DecidableEq, Repr

/-- The first address behind a region, in words. -/
def RamRegion.stop (r : RamRegion) : Nat := (r.start + r.size) % 2 ^ 64

/-! ### The array -/

/-- `push_guest_ram_region`; an empty region is refused. -/
def pushGuestRamRegion (rs : List RamRegion) (start size : Nat) (allocated : Bool) :
    List RamRegion :=
  if size = 0 then rs else rs ++ [{ start := start, size := size, allocated := allocated }]

/-- `ram_region_cmp`: the difference of the words, as an `int`. -/
def ramRegionCmp (a b : RamRegion) : ℤ :=
  Int.bmod ((a.start + 2 ^ 64 - b.start) % 2 ^ 64 : Nat) (2 ^ 32)

/-- `sort_guest_ram_regions`. Which way `qsort` sorts makes no difference as long as the
comparison is an order. -/
def sortGuestRamRegions (rs : List RamRegion) : List RamRegion :=
  rs.insertionSort fun a b => ramRegionCmp a b ≤ 0

/-- The loop of `collapse_guest_ram_regions`, with `r` the region before the next one. -/
def collapseFrom (r : RamRegion) : List RamRegion → List RamRegion
  | [] => [r]
  | next :: rest =>
    if r.allocated = next.allocated ∧ r.stop = next.start then
      collapseFrom { r with size := (r.size + next.size) % 2 ^ 64 } rest
    else r :: collapseFrom next rest

def collapseGuestRamRegions : List RamRegion → List RamRegion
  | [] => []
  | r :: rest => collapseFrom r rest

/-- Sort and collapse. -/
def settle (rs : List RamRegion) : List RamRegion :=
  collapseGuestRamRegions (sortGuestRamRegions rs)

/-! ### Operations -/

/-- `expand_guest_ram_region`, the end of every registration. A range without bytes is an
error. -/
def expandGuestRamRegion (rs : List RamRegion) (start bytes : Nat) : List RamRegion :=
  if bytes = 0 then rs else settle (pushGuestRamRegion rs start bytes false)

/-- The test of `is_ram_region` and of `vm_ram_mark_allocated`. -/
def RamRegion.holds (r : RamRegion) (addr size : Nat) : Bool :=
  decide (r.start ≤ addr) && decide ((addr + size) % 2 ^ 64 ≤ r.stop)

def isRamRegion (rs : List RamRegion) (addr size : Nat) : Bool := rs.any fun r => r.holds addr size

/-- The three pieces of a region of which a range is marked. -/
def splitRegion (rs : List RamRegion) (r : RamRegion) (start bytes : Nat) : List RamRegion :=
  let rs := pushGuestRamRegion rs r.start ((start + 2 ^ 64 - r.start) % 2 ^ 64) false
  let rs := pushGuestRamRegion rs start bytes true
  pushGuestRamRegion rs ((start + bytes) % 2 ^ 64)
    ((r.size + 2 ^ 64 - bytes + 2 ^ 64 - (start + 2 ^ 64 - r.start) % 2 ^ 64) % 2 ^ 64) false

def vmRamMarkAllocated (rs : List RamRegion) (start bytes : Nat) : List RamRegion :=
  match rs.find? fun r => r.holds start bytes with
  | none => rs
  | some r =>
    if r.allocated then rs
    else settle (splitRegion (rs.erase r) r start bytes)

/-- `vm_ram_allocate`; without an address on failure. -/
def vmRamAllocate (rs : List RamRegion) (bytes : Nat) : Option Nat × List RamRegion :=
  match rs.find? fun r => !r.allocated && decide (bytes ≤ r.size) with
  | none => (none, rs)
  | some r => (some r.start, vmRamMarkAllocated rs r.start bytes)

/-- `vm_ram_find_largest_free_region`. The first loop leaves its index behind the first free
region, and the second starts one further. -/
def vmRamFindLargestFreeRegion (rs : List RamRegion) : Option RamRegion :=
  match rs.dropWhile fun r => r.allocated with
  | [] => none
  | first :: rest =>
    some ((rest.drop 1).foldl
      (fun largest r => if r.allocated = false ∧ largest.size < r.size then r else largest) first)

/-- An access to a part of a page: where, how many bytes, and how far into the range. -/
structure Access where
  currentAddr : Nat
  size : Nat
  offset : Nat
  deriving DecidableEq, Repr

/-- The loop of `vm_ram_touch`. -/
def touchFrom (addr endAddr : Nat) : Nat → Nat → List Access
  | 0, _ => []
  | fuel + 1, currentAddr =>
    if currentAddr < endAddr then
      let nextPageStart := (currentAddr / 4096 * 4096 + 4096) % 2 ^ 64
      let nextAddr := min endAddr nextPageStart
      { currentAddr := currentAddr
        size := (nextAddr + 2 ^ 64 - currentAddr) % 2 ^ 64
        offset := (currentAddr + 2 ^ 64 - addr) % 2 ^ 64 } :: touchFrom addr endAddr fuel nextAddr
    else []

/-- `vm_ram_touch`: the accesses it makes, if it accepts the range. There are `2 ^ 52` pages. -/
def vmRamTouch (rs : List RamRegion) (addr size : Nat) : Option (List Access) :=
  if isRamRegion rs addr size then
    some (touchFrom addr ((addr + size) % 2 ^ 64) (2 ^ 52 + 2) addr)
  else none

/-! ### Runs -/

/-- The array, with the ranges that were registered and those that were marked or allocated. -/
structure GuestMem where
  ramRegions : List RamRegion
  registered : List (Range Nat)
  marked : List (Range Nat)

inductive Op where
  | register (start bytes : Nat)
  | markAllocated (start bytes : Nat)
  | allocate (bytes : Nat)
  deriving DecidableEq, Repr

def step (s : GuestMem) : Op → GuestMem
  | .register start bytes =>
    { s with
      ramRegions := expandGuestRamRegion s.ramRegions start bytes
      registered := ⟨start, start + bytes⟩ :: s.registered }
  | .markAllocated start bytes =>
    { s with
      ramRegions := vmRamMarkAllocated s.ramRegions start bytes
      marked := ⟨start, start + bytes⟩ :: s.marked }
  | .allocate bytes =>
    match vmRamAllocate s.ramRegions bytes with
    | (none, rs) => { s with ramRegions := rs }
    | (some addr, rs) =>
      { s with ramRegions := rs, marked := ⟨addr, addr + bytes⟩ :: s.marked }

def GuestMem.init : GuestMem := { ramRegions := [], registered := [], marked := [] }

end SeL4Kernel.GuestRam
