import Mathlib.Data.Nat.Bits
import SeL4Kernel.Lib.Cuts
import SeL4Kernel.Lib.Round

/-!
# The DMA pool of a CAmkES component

`libsel4camkes/src/dma.c`: the free memory of the pool is a list of regions, each with its
node in its own first bytes. An allocation cuts a block out of the first region that has room
for it, a free puts the block at the head of the list, and regions that touch are coalesced
only when an allocation has failed.

The list is modelled by the nodes in its order, and each node by its fields and its address.
A node that `alloc` makes for the rest behind a block gets its address, its size and its
physical address, but not its flag `cached`: this is what the memory held before, which is an
argument here. A result `none` is an assertion that fails.
-/

namespace SeL4Kernel.Camkes

/-- `sizeof(region_t)`. -/
def sizeofRegion : Nat := 32

/-- `alignof(region_t)`. -/
def alignofRegion : Nat := 8

/-! ### Frames -/

structure DmaFrame where
  size : Nat
  paddr : Nat
  cached : Bool

structure DmaPool where
  startVaddr : Nat
  endVaddr : Nat
  frameSize : Nat
  dmaFrames : List DmaFrame

def getFrameDesc (pools : List DmaPool) (ptr : Nat) : Option DmaFrame :=
  match pools.find? fun pool => decide (pool.startVaddr ≤ ptr ∧ ptr ≤ pool.endVaddr) with
  | none => none
  | some pool =>
    -- the frame is looked up by the address with its offset in the frame masked out
    pool.dmaFrames[(ptr - ptr % pool.frameSize - pool.startVaddr) / pool.frameSize]?

def camkesDmaGetPaddr (pools : List DmaPool) (ptr : Nat) : Nat :=
  match getFrameDesc pools ptr with
  | none => 0
  | some frame => frame.paddr + ptr % frame.size

/-! ### Nodes -/

/-- A `region_t` and its address. -/
structure Region where
  vaddr : Nat
  cached : Bool
  size : Nat
  paddrUpper : Nat
  deriving DecidableEq, Repr

def savePaddr (r : Region) (paddr : Nat) : Region := { r with paddrUpper := paddr / 4096 }

def tryExtractPaddr (r : Region) : Nat :=
  if r.paddrUpper = 0 then 0 else r.paddrUpper * 4096 + r.vaddr % 4096

/-- The node once `extract_paddr` has looked its physical address up. -/
def extractPaddr (pools : List DmaPool) (r : Region) : Region :=
  if tryExtractPaddr r = 0 then savePaddr r (camkesDmaGetPaddr pools r.vaddr) else r

def growNode (r : Region) (by' : Nat) : Region := { r with size := r.size + by' }

def shrinkNode (r : Region) (by' : Nat) : Region := { r with size := r.size - by' }

/-! ### Coalescing -/

/-- `p` immediately follows `q`, and they may be coalesced. -/
def follows (p q : Region) : Bool :=
  decide (p.vaddr = q.vaddr + q.size ∧ tryExtractPaddr p = tryExtractPaddr q + q.size ∧
    p.cached = q.cached)

/-- The first node that may be coalesced with `p`, between those before it and behind it. -/
def touching (p : Region) : List Region → Option (List Region × Region × List Region)
  | [] => none
  | q :: l =>
    if follows p q || follows q p then some ([], q, l)
    else (touching p l).map fun (front, r, between) => (q :: front, r, between)

theorem touching_spec {p q : Region} {l front between : List Region}
    (h : touching p l = some (front, q, between)) :
    l = front ++ q :: between ∧ (follows p q || follows q p) = true := by
  induction l generalizing front with
  | nil => cases h
  | cons r l ih =>
    rw [touching] at h
    split at h
    next ht =>
      cases h
      exact ⟨rfl, ht⟩
    next ht =>
      obtain ⟨⟨front', q', between'⟩, hrec, heq⟩ := Option.map_eq_some_iff.mp h
      cases heq
      obtain ⟨hl, hq⟩ := ih hrec
      exact ⟨by rw [hl, List.cons_append], hq⟩

/-- The loops of `defrag`. The list is `before ++ after`, and the node at the head of `after`
is compared with those before it. -/
def defragFrom (before after : List Region) : List Region :=
  match after with
  | [] => before
  | p :: rest =>
    match h : touching p before with
    | none => defragFrom (before ++ [p]) rest
    | some (front, q, between) =>
      have hlen : before.length = front.length + (between.length + 1) := by
        rw [(touching_spec h).1, List.length_append, List.length_cons]
      if follows p q then
        -- the scan goes back to the node that was grown, or starts behind it if it is the head
        if front = [] then defragFrom [growNode q p.size] (between ++ rest)
        else defragFrom front (growNode q p.size :: (between ++ rest))
      else defragFrom (front ++ between) (growNode p q.size :: rest)
termination_by (before.length + after.length, after.length)
decreasing_by
  all_goals simp only [Prod.lex_def, List.length_append, List.length_cons, List.length_nil]
  · exact .inr ⟨by omega, by omega⟩
  all_goals exact .inl (by omega)

def defrag (pools : List DmaPool) (free : List Region) : List Region :=
  -- the outer loop looks up the physical address of every node
  defragFrom [] (free.map (extractPaddr pools))

/-! ### Freeing -/

/-- The size of the block for a request, in a word of 64 bits. -/
def blockSize (size : Nat) : Nat :=
  roundUp (max size sizeofRegion) alignofRegion % 2 ^ 64

def freeRegion (ptr size : Nat) (cached : Bool) (free : List Region) : Option (List Region) :=
  if ptr % alignofRegion = 0 then
    some ({ vaddr := ptr, cached := cached, size := blockSize size, paddrUpper := 0 } :: free)
  else none

def camkesDmaFree (pools : List DmaPool) (ptr size : Nat) (free : List Region) :
    Option (List Region) :=
  if ptr = 0 then some free
  else
    match getFrameDesc pools ptr with
    | none => some free
    | some frame => freeRegion ptr size frame.cached free

/-! ### Initialisation -/

/-- One region per page, from the first page on. -/
def freePages (base pageSize : Nat) (cached : Bool) : Nat → List Region → Option (List Region)
  | 0, free => some free
  | n + 1, free => do
    let free ← freeRegion base pageSize cached free
    freePages (base + pageSize) pageSize cached n free

/-- The address of the first break in physical contiguity. -/
def findLimit (pools : List DmaPool) (stop : Nat) : Nat → Nat → Nat → Option Nat
  | 0, limit, _ => some limit
  | fuel + 1, limit, nextExpectedPaddr =>
    if limit < stop then
      if camkesDmaGetPaddr pools limit = 0 then none
      else if camkesDmaGetPaddr pools limit ≠ nextExpectedPaddr then some limit
      else findLimit pools stop fuel (limit + 1) (nextExpectedPaddr + 1)
    else some limit

/-- The search for regions when no page size is given; false where it gives up. Each round covers
at least one byte. -/
def freeLazily (pools : List DmaPool) (stop : Nat) (cached : Bool) :
    Nat → Nat → List Region → Option (Bool × List Region)
  | 0, _, free => some (true, free)
  | fuel + 1, base, free =>
    if base < stop then
      if camkesDmaGetPaddr pools base = 0 then some (false, free)
      else
        match findLimit pools stop (stop - base) (base + 1)
          (camkesDmaGetPaddr pools base + 1) with
        | none => some (false, free)
        | some limit => do
          let free ←
            if base + sizeofRegion ≥ limit then freeRegion base 0 cached free else some free
          freeLazily pools stop cached fuel (roundUp limit alignofRegion) free
    else some (true, free)

/-- Whether the initialisation succeeds, and the free list after it. -/
def camkesDmaInit (pools : List DmaPool) (dmaPool dmaPoolSz pageSize : Nat) (cached : Bool)
    (free : List Region) : Option (Bool × List Region) :=
  if pageSize ≠ 0 ∧ (pageSize ≤ sizeofRegion ∨ dmaPool % pageSize ≠ 0) then some (false, free)
  else if dmaPool = 0 ∨ dmaPool % alignofRegion ≠ 0 then some (false, free)
  else if pageSize ≠ 0 ∧ (pageSize &&& (pageSize - 1) ≠ 0 ∨ pageSize < alignofRegion) then
    some (false, free)
  else if pageSize ≠ 0 then
    (freePages dmaPool pageSize cached ((dmaPoolSz + (pageSize - 1)) / pageSize) free).map
      fun free => (true, free)
  else freeLazily pools (dmaPool + dmaPoolSz) cached dmaPoolSz dmaPool free

/-! ### Allocation -/

/-- The scan of the region from its end for `size` bytes at an aligned address, such that what
is left on each side is nothing or has room for a node. Every round takes off `align` bytes,
which are never more than `q`: it is a multiple of `align` and not below the region. -/
def scan (p : Region) (size align : Nat) : Nat → Nat → Option Nat
  | 0, _ => none
  | fuel + 1, q =>
    if q = p.vaddr ∨ p.vaddr + sizeofRegion ≤ q then
      if q + size = p.vaddr + p.size ∨ q + size + sizeofRegion ≤ p.vaddr + p.size then some q
      else scan p size align fuel (q - align)
    else none

/-- The node for what is left of `p` from `start` on. -/
def restNode (memory : Nat → Bool) (p : Region) (start : Nat) : Region :=
  let basePaddr := tryExtractPaddr p
  { vaddr := start
    cached := memory start
    size := p.vaddr + p.size - start
    paddrUpper := if basePaddr ≠ 0 then (basePaddr + (start - p.vaddr)) / 4096 else 0 }

/-- The list without the `size` bytes at `q`, which lie in the node `p` between `prev` and
`next`. -/
def cut (memory : Nat → Bool) (prev : List Region) (p : Region) (next : List Region)
    (q size : Nat) : List Region :=
  if p.vaddr = q then
    if p.size = size then prev ++ next
    else prev ++ restNode memory p (p.vaddr + size) :: next
  else if q + size = p.vaddr + p.size then prev ++ shrinkNode p size :: next
  else restNode memory p (q + size) :: (prev ++ { p with size := q - p.vaddr } :: next)

/-- The loop over the nodes. -/
def allocFrom (memory : Nat → Bool) (size align : Nat) (cached : Bool) (prev : List Region) :
    List Region → Option (Nat × List Region)
  | [] => none
  | p :: next =>
    let found :=
      if size ≤ p.size ∧ p.cached = cached then
        scan p size align (p.size + 1)
          (p.vaddr + p.size - size - (p.vaddr + p.size - size) % align)
      else none
    match found with
    | some q => some (q, cut memory prev p next q size)
    | none => allocFrom memory size align cached (prev ++ [p]) next

def alloc (memory : Nat → Bool) (size align : Nat) (cached : Bool) (free : List Region) :
    Option Nat × List Region :=
  match allocFrom memory size align cached [] free with
  | some (q, free') => (some q, free')
  | none => (none, free)

/-- The alignment of the block for a request. -/
def blockAlign (align : Nat) : Nat :=
  let align := if align = 0 then 1 else align
  if align < alignofRegion then alignofRegion else align

def camkesDmaAlloc (pools : List DmaPool) (memory : Nat → Bool) (size align : Nat)
    (cached : Bool) (free : List Region) : Option (Option Nat × List Region) :=
  if free = [] then some (none, free)
  -- `alloc` asserts that the size was rounded up, which it was not if that wrapped
  else if blockSize size < sizeofRegion then none
  else
    match alloc memory (blockSize size) (blockAlign align) cached free with
    | (none, free) =>
      if sizeofRegion < blockSize size then
        some (alloc memory (blockSize size) (blockAlign align) cached (defrag pools free))
      else some (none, free)
    | r => some r

end SeL4Kernel.Camkes
