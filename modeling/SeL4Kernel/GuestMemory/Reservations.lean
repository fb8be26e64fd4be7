import SeL4Kernel.Lib.Ranges
import SeL4Kernel.Lib.Round

/-!
# Reservations of guest memory

`libsel4vm/src/guest_memory.c`: regular reservations lie at addresses that the caller gives,
anonymous ones are taken from the front of anonymous regions. The regular reservations and
the anonymous regions are kept in two trees, ordered by a comparison that takes two ranges for
equal if they intersect.

A tree is modelled by its nodes in order, with the search for a node that compares equal.
What the address space manager and `ps_calloc` answer is an argument of each call. Addresses
are words of 64 bits; ranges that the address space manager grants end below `2 ^ 64`, and so do
those of faults, so that sums are only reduced where a size has been rounded up.

The checks that go wrong are that of a fault, which compares the size of the fault with the
size of the reservation but does not look at where the fault starts, and that of an anonymous
region, where the size of the free area is negative if the alignment leads behind the region.
-/

namespace SeL4Kernel.GuestMemory

/-! ### The trees -/

inductive ReservationType where
  | regular
  | anon
  deriving DecidableEq

structure Reservation where
  addr : Nat
  size : Nat
  faultCallback : Option Nat
  isMapped : Bool
  memoryMapIterator : Bool
  resType : ReservationType
  /-- The alignment that was asked for. The program does not record it. -/
  align : Nat
  deriving DecidableEq

structure AnonRegion where
  addr : Nat
  size : Nat
  allocAddr : Nat
  reservations : List Reservation
  deriving DecidableEq

/-- A node of a tree. -/
structure ResTree (α : Type) where
  addr : Nat
  size : Nat
  data : α
  deriving DecidableEq

variable {α : Type}

def reservationNodeCmp (addr size : Nat) (y : ResTree α) : Int :=
  if addr < y.addr then
    -- the two regions intersect, or not
    if addr + size > y.addr then 0 else -1
  else if addr < y.addr + y.size then 0
  else 1

def findMember (addr size : Nat) (tree : List (ResTree α)) : Option (ResTree α) :=
  tree.find? fun y => reservationNodeCmp addr size y = 0

def treeAdd (x : ResTree α) : List (ResTree α) → List (ResTree α)
  | [] => [x]
  | y :: l => if reservationNodeCmp x.addr x.size y < 0 then x :: y :: l else y :: treeAdd x l

def removeMemoryReservationNode (addr size : Nat) : List (ResTree α) → List (ResTree α)
  | [] => []
  | y :: l =>
    if reservationNodeCmp addr size y = 0 then
      -- the region needs to be an exact match
      if y.addr = addr ∧ y.size = size then l else y :: l
    else y :: removeMemoryReservationNode addr size l

def addMemoryReservationNode (addr size : Nat) (data : α) (tree : List (ResTree α))
    (calloc : Bool) : Option (List (ResTree α)) :=
  match findMember addr size tree with
  | some _ => none
  | none =>
    if calloc then some (treeAdd { addr := addr, size := size, data := data } tree) else none

/-! ### Operations -/

structure Memory where
  regular : List (ResTree Reservation)
  anon : List (ResTree AnonRegion)
  /-- The regular reservations that have not been freed. -/
  live : List Reservation
  /-- Ranges of the address space that are reserved and that nothing refers to. -/
  leaked : List (Range Nat)

/-- What the address space manager and the two allocations of memory answer. -/
structure Grant where
  vspace : Bool
  first : Bool
  second : Bool

def vmReserveMemoryAt (s : Memory) (addr size : Nat) (faultCallback : Option Nat) (g : Grant) :
    Memory :=
  if faultCallback = none ∨ g.vspace = false ∨ g.first = false then s
  else
    let r : Reservation :=
      { addr := addr, size := size, faultCallback := faultCallback, isMapped := false
        memoryMapIterator := false, resType := .regular, align := 1 }
    match addMemoryReservationNode addr size r s.regular g.second with
    | none => s
    | some regular => { s with regular := regular, live := r :: s.live }

def vmMemoryMakeAnon (s : Memory) (addr size : Nat) (g : Grant) : Memory :=
  if g.vspace = false then s
  else if g.first = false then { s with leaked := ⟨addr, addr + size⟩ :: s.leaked }
  else
    let region : AnonRegion := { addr := addr, size := size, allocAddr := addr, reservations := [] }
    match addMemoryReservationNode addr size region s.anon g.second with
    | none => s
    | some anon => { s with anon := anon }

/-- `ROUND_UP`, in a word. -/
def roundUpWord (n b : Nat) : Nat := roundUp n b % 2 ^ 64

def allocableAddr (region : AnonRegion) (align : Nat) : Nat := roundUpWord region.allocAddr align

/-- The unsigned `size - (allocable_addr - addr)`. -/
def freeAreaSize (region : AnonRegion) (align : Nat) : Nat :=
  (region.size + region.addr + 2 ^ 64 - allocableAddr region align) % 2 ^ 64

/-- The region has room for `size` bytes, says the program. -/
def allocable (size align : Nat) (n : ResTree AnonRegion) : Bool :=
  decide (size ≤ freeAreaSize n.data align)

def findAllocableAnonRegion (tree : List (ResTree AnonRegion)) (size align : Nat) :
    Option (ResTree AnonRegion) :=
  tree.find? (allocable size align)

/-- The region with a reservation more. -/
def AnonRegion.reserve (region : AnonRegion) (size align : Nat) (faultCallback : Option Nat) :
    AnonRegion :=
  let addr := allocableAddr region align
  { region with
    reservations := region.reservations ++
      [{ addr := addr, size := size, faultCallback := faultCallback, isMapped := false
         memoryMapIterator := false, resType := .anon, align := align }]
    allocAddr := (addr + roundUpWord size 4096) % 2 ^ 64 }

/-- The tree with the reservation made in the first region with room. -/
def reserveIn (size align : Nat) (faultCallback : Option Nat) :
    List (ResTree AnonRegion) → List (ResTree AnonRegion)
  | [] => []
  | n :: l =>
    if allocable (roundUpWord size 4096) align n then
      { n with data := n.data.reserve size align faultCallback } :: l
    else n :: reserveIn size align faultCallback l

def vmReserveAnonMemory (s : Memory) (size align : Nat) (faultCallback : Option Nat)
    (g : Grant) : Memory :=
  if faultCallback = none then s
  else
    match findAllocableAnonRegion s.anon (roundUpWord size 4096) align with
    | none => s
    | some _ =>
      if g.first = false ∨ g.second = false then s
      else { s with anon := reserveIn size align faultCallback s.anon }

def vmFreeReservedMemory (s : Memory) (r : Reservation) : Memory :=
  if r.resType = .anon then s
  else
    { s with
      regular := removeMemoryReservationNode r.addr r.size s.regular
      live := s.live.erase r }

/-! ### Faults -/

inductive FaultResult where
  | unhandled
  | error
  | restart
  /-- The callback of the reservation is invoked with the address and the size. -/
  | callback (r : Reservation) (addr size : Nat)
  deriving DecidableEq

def findAnonReservationByAddr (addr size : Nat) (region : AnonRegion) : Option Reservation :=
  region.reservations.find? fun r => r.addr ≤ addr ∧ r.addr + r.size ≥ addr + size

/-- The fault in a reservation; `mapped` is the result of a deferred mapping. -/
def faultReservation (addr size : Nat) (mapped : Bool) (r : Reservation) : FaultResult :=
  if r.isMapped = false ∧ r.memoryMapIterator = true then
    if mapped then .restart else .error
  else
    match r.faultCallback with
    | none => .error
    | some _ => .callback r addr size

def vmMemoryHandleFault (s : Memory) (addr size : Nat) (mapped : Bool) : FaultResult :=
  match findMember addr 0 s.regular with
  | some n =>
    if n.addr + size > n.addr + n.size then .error
    else faultReservation addr size mapped n.data
  | none =>
    match findMember addr 0 s.anon with
    | none => .unhandled
    | some n =>
      if n.addr + size > n.addr + n.size then .error
      else
        match findAnonReservationByAddr addr size n.data with
        | none => .unhandled
        | some r => faultReservation addr size mapped r

end SeL4Kernel.GuestMemory
