import Mathlib.Algebra.Group.Int.Defs
import Mathlib.Algebra.Group.Nat.Defs
import Mathlib.Data.List.Basic

/-!
# The DMA allocator

`libsel4dma/src/dma.c`: the memory of a node is a list of regions, each of which has only its
offset; a region ends where the next one starts, or where the node ends. To allocate, free
regions are merged with the free ones behind them until one is large enough; its start is
moved up to the alignment, and what is left over is split off.

A region is named by the address of its `dma_mem_t`, which is never changed. The request that
an allocated region answers is recorded with it.

`malloc` may fail when a region is split; the other calls of `malloc` succeed.
-/

namespace SeL4Kernel.Dma

/-- `struct dma_mem_descriptor`. -/
structure Descriptor where
  vaddr : Nat
  paddr : Nat
  sizeBits : Nat
  deriving DecidableEq, Repr

/-- `struct dma_mem`, with the size and alignment it was allocated for. -/
structure Mem where
  id : Nat
  offset : Nat
  allocated : Bool
  size : Nat
  align : Nat
  deriving DecidableEq, Repr

/-- `struct dma_memd_node`; there is one frame in every node. -/
structure Node where
  desc : Descriptor
  mems : List Mem
  deriving DecidableEq, Repr

/-! ### Sizes -/

/-- `_is_free`. -/
def Mem.isFree (m : Mem) : Bool := !m.allocated

/-- `_node_size`: the shift is of type `int`, the result is a `size_t`. -/
def Descriptor.nodeSize (d : Descriptor) : Nat :=
  ((2 ^ d.sizeBits : ℤ).bmod (2 ^ 32) % 2 ^ 64).toNat

/-- Where a region ends, given the regions behind it. -/
def stopOf (d : Descriptor) : List Mem → Nat
  | [] => d.nodeSize
  | next :: _ => next.offset

/-- `_mem_size`. -/
def memSize (d : Descriptor) (m : Mem) (rest : List Mem) : Nat :=
  (stopOf d rest + 2 ^ 64 - m.offset) % 2 ^ 64

/-- `dma_paddr`. -/
def dmaPaddr (d : Descriptor) (m : Mem) : Nat := (d.paddr + m.offset) % 2 ^ 64

/-- `dma_vaddr`. -/
def dmaVaddr (d : Descriptor) (m : Mem) : Nat := (d.vaddr + m.offset) % 2 ^ 64

/-! ### Allocation -/

/-- What a caller of `dma_alloc` wants, and whether `malloc` gives memory for a split. -/
structure Request where
  size : Nat
  align : Nat
  malloc : Bool
  deriving DecidableEq, Repr

/-- The bytes to skip for the alignment. -/
def memAlign (d : Descriptor) (align : Nat) (m : Mem) : Nat :=
  if align - dmaPaddr d m % align = align then 0 else align - dmaPaddr d m % align

/-- The free region `m` is large enough. -/
def Suits (d : Descriptor) (q : Request) (m : Mem) (rest : List Mem) : Prop :=
  memAlign d q.align m < memSize d m rest ∧ q.size ≤ memSize d m rest - memAlign d q.align m

instance (d : Descriptor) (q : Request) (m : Mem) (rest : List Mem) :
    Decidable (Suits d q m rest) := inferInstanceAs (Decidable (_ ∧ _))

/-- Use the region `m`; a region that is split off gets the name `fresh`. -/
def takeMem (d : Descriptor) (q : Request) (fresh : Nat) (m : Mem) (rest : List Mem) :
    Mem × List Mem :=
  let skip := memAlign d q.align m
  let used : Mem :=
    { m with offset := m.offset + skip, allocated := true, size := q.size, align := q.align }
  if q.size < memSize d m rest - skip ∧ q.malloc = true then
    let split : Mem :=
      { id := fresh, offset := used.offset + q.size, allocated := false, size := 0, align := 0 }
    (used, used :: split :: rest)
  else (used, used :: rest)

/-- The loop of `dma_memd_alloc`, with the free region that is being compacted. The result is
the region and how far its start was moved, and the regions of the node. -/
def memdAlloc (d : Descriptor) (q : Request) (fresh : Nat) :
    Option Mem → List Mem → Option (Mem × Nat) × List Mem
  | none, [] => (none, [])
  | some m, [] =>
    if Suits d q m [] then
      (some ((takeMem d q fresh m []).1, memAlign d q.align m), (takeMem d q fresh m []).2)
    else (none, [m])
  | none, next :: rest =>
    if next.isFree then memdAlloc d q fresh (some next) rest
    else
      let (r, mems) := memdAlloc d q fresh none rest
      (r, next :: mems)
  | some m, next :: rest =>
    if next.isFree then memdAlloc d q fresh (some m) rest
    else if Suits d q m (next :: rest) then
      (some ((takeMem d q fresh m (next :: rest)).1, memAlign d q.align m),
        (takeMem d q fresh m (next :: rest)).2)
    else
      let (r, mems) := memdAlloc d q fresh none rest
      (r, m :: next :: mems)

/-- The loop of `dma_alloc` over the nodes. -/
def allocNodes (q : Request) (fresh : Nat) : List Node → Option (Mem × Nat) × List Node
  | [] => (none, [])
  | n :: ns =>
    match memdAlloc n.desc q fresh none n.mems with
    | (some r, mems) => (some r, { n with mems := mems } :: ns)
    | (none, mems) =>
      let (r, ns) := allocNodes q fresh ns
      (r, { n with mems := mems } :: ns)

/-! ### The allocator -/

structure Allocator where
  nodes : List Node
  /-- the next name of a region -/
  fresh : Nat
  deriving DecidableEq, Repr

def Allocator.init : Allocator := { nodes := [], fresh := 0 }

/-- The node of a descriptor that has just been provided. -/
def freshNode (d : Descriptor) (id : Nat) : Node :=
  { desc := d, mems := [{ id := id, offset := 0, allocated := false, size := 0, align := 0 }] }

/-- `do_dma_provide_mem`. -/
def dmaProvideMem (d : Descriptor) (a : Allocator) : Allocator :=
  { nodes := freshNode d a.fresh :: a.nodes, fresh := a.fresh + 1 }

/-- `DMA_MINALIGN_BYTES`. -/
def dmaMinalignBytes : Nat := 32

/-- The alignment that `dma_alloc` works with. -/
def effective (q : Request) : Request := { q with align := max q.align dmaMinalignBytes }

/-- The end of `dma_alloc` with memory from `morecore`, after the allocation from it. -/
def addNode (d : Descriptor) (fresh : Nat) (nodes : List Node)
    (result : Option (Mem × Nat) × List Mem) : Option (Mem × Nat) × Allocator :=
  (result.1, { nodes := { freshNode d fresh with mems := result.2 } :: nodes, fresh := fresh + 2 })

/-- `dma_alloc`; `morecore` is the memory that the function of that name gives, if it is there
and gives some. -/
def dmaAlloc (q : Request) (morecore : Option Descriptor) (a : Allocator) :
    Option (Mem × Nat) × Allocator :=
  let (r, nodes) := allocNodes (effective q) a.fresh a.nodes
  match r, morecore with
  | some r, _ => (some r, { nodes := nodes, fresh := a.fresh + 1 })
  | none, none => (none, { nodes := nodes, fresh := a.fresh + 1 })
  | none, some d =>
    addNode d a.fresh nodes
      (memdAlloc d (effective q) (a.fresh + 1) none (freshNode d a.fresh).mems)

/-- `_mem_compact`, for the first of the regions. -/
def memCompact : List Mem → List Mem
  | [] => []
  | m :: rest => m :: rest.dropWhile Mem.isFree

/-- `dma_free`, within a node. -/
def freeMem (id : Nat) : List Mem → List Mem
  | [] => []
  | m :: rest =>
    if m.id = id then memCompact ({ m with allocated := false } :: rest)
    else m :: freeMem id rest

def dmaFree (id : Nat) (a : Allocator) : Allocator :=
  { a with nodes := a.nodes.map fun n => { n with mems := freeMem id n.mems } }

/-- The node has one region, and it is free. -/
def oneFree : List Mem → Bool
  | [m] => m.isFree
  | _ => false

/-- The loop of `dma_reclaim_mem`: the first region of every node on the way is compacted. -/
def reclaimNodes : List Node → Option Descriptor × List Node
  | [] => (none, [])
  | n :: ns =>
    if oneFree (memCompact n.mems) then (some n.desc, ns)
    else
      let (r, rest) := reclaimNodes ns
      (r, { n with mems := memCompact n.mems } :: rest)

def dmaReclaimMem (a : Allocator) : Option Descriptor × Allocator :=
  let (r, nodes) := reclaimNodes a.nodes
  (r, { a with nodes := nodes })

inductive Op where
  | provide (d : Descriptor)
  | alloc (q : Request) (morecore : Option Descriptor)
  | free (id : Nat)
  | reclaim
  deriving DecidableEq, Repr

def step (a : Allocator) : Op → Allocator
  | .provide d => dmaProvideMem d a
  | .alloc q morecore => (dmaAlloc q morecore a).2
  | .free id => dmaFree id a
  | .reclaim => (dmaReclaimMem a).2

end SeL4Kernel.Dma
