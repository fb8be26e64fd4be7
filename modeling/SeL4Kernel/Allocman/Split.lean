import Mathlib.Data.Finset.Basic
import SeL4Kernel.Lib.Tiles
import SeL4Kernel.Object.Untyped

/-!
# The untyped manager that splits

`utspace/split.c` of `libsel4allocman`: untyped memory is split in halves until a piece has the
size of an object. A node stands for an untyped capability; it is in the free list of its size,
or it was handed out, or it has two children. When a node is freed and its sibling is free, both
are deleted and their parent is freed.

The links of a free list are a list of nodes here. Memory for nodes comes from other parts of
the allocator: `news` has their answers, and `live` the nodes that exist. The capabilities are
those that the kernel makes when it retypes untyped memory without children: the first one
begins where the memory does, and the second one behind the first.
-/

namespace SeL4Kernel.Split

open Function

/-- The three arrays of free lists. -/
inductive Pool where
  | heads
  | devHeads
  | devMemHeads
  deriving DecidableEq, Repr

/-- One entry of an array, `&heads[size_bits]`. -/
structure FreeList where
  pool : Pool
  bits : ℕ
  deriving DecidableEq, Repr

/-- `utspace_split_t` with the nodes in memory. `base` and `bits` are the memory of a node's
untyped capability. -/
structure Utspace where
  live : Finset ℕ
  base : ℕ → ℕ
  bits : ℕ → ℕ
  parent : ℕ → Option ℕ
  sibling : ℕ → ℕ
  head : ℕ → Option FreeList
  originHead : ℕ → FreeList
  /-- `none` is `ALLOCMAN_NO_PADDR` -/
  paddr : ℕ → Option ℕ
  heads : FreeList → List ℕ

inductive Failure where
  | assertion
  | nullPointer
  | outOfBounds
  | noReturn
  deriving DecidableEq, Repr

def word (n : ℕ) : ℕ := n % 2 ^ 64

/-! ### Nodes and lists -/

def removeNode (list : FreeList) (node : ℕ) (s : Utspace) : Except Failure Utspace :=
  if node ∈ s.heads list then
    .ok { s with
      heads := update s.heads list ((s.heads list).erase node)
      head := update s.head node (some list) }
  else .error .assertion

def insertNode (list : FreeList) (node : ℕ) (s : Utspace) : Utspace :=
  { s with
    heads := update s.heads list (node :: s.heads list)
    head := update s.head node none }

/-- `_new_node` takes the next answer. -/
def newNode (news : ℕ → Option ℕ) (i : ℕ) (s : Utspace) : Option (ℕ × Utspace) :=
  match news i with
  | none => none
  | some node => some (node, { s with live := insert node s.live })

def deleteNode (node : ℕ) (s : Utspace) : Utspace := { s with live := s.live.erase node }

/-- `_insert_new_node` with the answer for its memory; the first result is the error. -/
def insertNewNode (list : FreeList) (base bits : ℕ) (paddr : Option ℕ) (new : Option ℕ)
    (s : Utspace) : Bool × Utspace :=
  match new with
  | none => (true, s)
  | some node =>
    (false, insertNode list node
      { s with
        live := insert node s.live
        parent := update s.parent node none
        base := update s.base node base
        bits := update s.bits node bits
        paddr := update s.paddr node paddr
        originHead := update s.originHead node list })

/-- An untyped capability that is added. -/
structure Added where
  base : ℕ
  bits : ℕ
  paddr : Option ℕ
  deriving DecidableEq, Repr

/-- `_utspace_split_add_uts`, with one answer for each node. -/
def addUts (pool : Pool) : List (Added × Option ℕ) → Utspace → Except Failure (Bool × Utspace)
  | [], s => .ok (false, s)
  | (ut, new) :: uts, s =>
    if ut.bits ≥ wordBits then .error .outOfBounds
    else
      let (error, s) := insertNewNode ⟨pool, ut.bits⟩ ut.base ut.bits ut.paddr new s
      if error then .ok (true, s) else addUts pool uts s

/-! ### Refilling -/

/-- A node whose memory of the given size has the physical address. -/
def holds (s : Utspace) (paddr bits node : ℕ) : Bool :=
  match s.paddr node with
  | none => false
  | some p => p ≤ paddr ∧ paddr < word (p + 2 ^ bits)

/-- The node of a list that serves a request. -/
def pick (s : Utspace) (list : FreeList) : Option ℕ → Option ℕ
  | none => (s.heads list).head?
  | some paddr => (s.heads list).find? (holds s paddr list.bits)

/-- What the two retypes of `_refill_pool` and the rest of it make of a node. -/
def splitNode (pool : Pool) (sizeBits node left right : ℕ) (s : Utspace) :
    Except Failure Utspace := do
  let s ← removeNode ⟨pool, sizeBits + 1⟩ node s
  let s := { s with
    base := update (update s.base left (s.base node)) right
      (s.base node + 2 ^ sizeBits)
    bits := update (update s.bits left sizeBits) right sizeBits
    parent := update (update s.parent left (some node)) right (some node)
    sibling := update (update s.sibling left right) right left
    originHead := update (update s.originHead left ⟨pool, sizeBits⟩) right
      ⟨pool, sizeBits⟩
    paddr := update (update s.paddr left (s.paddr node)) right
      ((s.paddr node).map fun p => word (p + 2 ^ sizeBits)) }
  return insertNode ⟨pool, sizeBits⟩ left (insertNode ⟨pool, sizeBits⟩ right s)

/-- The part of `_refill_pool` behind the recursive call. The kernel does not make untyped
memory that is too small. -/
def splitFirst (news : ℕ → Option ℕ) (pool : Pool) (paddr : Option ℕ) (sizeBits i : ℕ)
    (s : Utspace) : Except Failure (Bool × ℕ × Utspace) :=
  match pick s ⟨pool, sizeBits + 1⟩ paddr with
  | none => .error .assertion
  | some node =>
    match newNode news i s with
    | none => .ok (false, i + 1, s)
    | some (left, s) =>
      match newNode news (i + 1) s with
      | none => .ok (false, i + 2, deleteNode left s)
      | some (right, s) =>
        if sizeBits < minUntypedBits then
          .ok (false, i + 2, deleteNode right (deleteNode left s))
        else do
          let s ← splitNode pool sizeBits node left right s
          return (true, i + 2, s)

/-- `_refill_pool`, where `up` lists are larger; the result says whether the list is filled. -/
def refillPool (news : ℕ → Option ℕ) (pool : Pool) (paddr : Option ℕ) :
    ℕ → ℕ → ℕ → Utspace → Except Failure (Bool × ℕ × Utspace)
  | up, sizeBits, i, s =>
    if (pick s ⟨pool, sizeBits⟩ paddr).isSome then .ok (true, i, s)
    else
      match up with
      | 0 => .ok (false, i, s)
      | up + 1 => do
        let (filled, i, s) ← refillPool news pool paddr up (sizeBits + 1) i s
        if filled then splitFirst news pool paddr sizeBits i s else return (false, i, s)

/-- The number of lists above a size: the last one is not used to refill. -/
def listsAbove (sizeBits : ℕ) : ℕ := wordBits - 2 - sizeBits

/-! ### Requests -/

/-- `find_head_for_paddr`. -/
def findHeadForPaddr (s : Utspace) (pool : Pool) (paddr sizeBits : ℕ) : Bool :=
  (List.range wordBits).any fun i => (s.heads ⟨pool, i⟩).any fun node =>
    match s.paddr node with
    | none => false
    | some p => p ≤ paddr ∧ word (paddr + 2 ^ sizeBits) ≤ word (p + 2 ^ i)

/-- A call of `_utspace_split_alloc`: whether the size is that of the type, and whether the
kernel retypes the memory into the slot. -/
structure Request where
  sizeBits : ℕ
  sizeOk : Bool
  paddr : Option ℕ
  canBeDev : Bool
  retypeOk : Bool
  news : ℕ → Option ℕ

/-- The pool that has the memory at a physical address. -/
def poolForPaddr (s : Utspace) (q : Request) (paddr : ℕ) : Option Pool :=
  if q.canBeDev ∧ findHeadForPaddr s .devHeads paddr q.sizeBits then some .devHeads
  else if q.canBeDev ∧ findHeadForPaddr s .devMemHeads paddr q.sizeBits then some .devMemHeads
  else if findHeadForPaddr s .heads paddr q.sizeBits then some .heads
  else none

/-- The retype of the node that was found, and its removal from the list. -/
def takeNode (q : Request) (pool : Pool) (node : ℕ) (s : Utspace) :
    Except Failure (Option ℕ × Utspace) :=
  if q.retypeOk then do
    let s ← removeNode ⟨pool, q.sizeBits⟩ node s
    return (some node, s)
  else .ok (none, s)

/-- The search for the node at a physical address. -/
def findNode (s : Utspace) (list : FreeList) (paddr : ℕ) : Option ℕ :=
  (s.heads list).find? fun node => s.paddr node = some paddr

/-- A request for memory at a physical address. -/
def allocAt (q : Request) (paddr : ℕ) (s : Utspace) : Except Failure (Option ℕ × Utspace) :=
  match poolForPaddr s q paddr with
  | none => .ok (none, s)
  | some pool => do
    let (filled, _, s) ← refillPool q.news pool (some paddr) (listsAbove q.sizeBits) q.sizeBits 0 s
    if filled then
      match findNode s ⟨pool, q.sizeBits⟩ paddr with
      | none => .error .assertion
      | some node => takeNode q pool node s
    else return (none, s)

/-- A request for any memory, from one pool. -/
def allocFrom (q : Request) (pool : Pool) (i : ℕ) (s : Utspace) :
    Except Failure (Bool × ℕ × Option ℕ × Utspace) := do
  let (filled, i, s) ← refillPool q.news pool none (listsAbove q.sizeBits) q.sizeBits i s
  if filled then
    match (s.heads ⟨pool, q.sizeBits⟩).head? with
    | none => .error .nullPointer
    | some node => do
      let (cookie, s) ← takeNode q pool node s
      return (true, i, cookie, s)
  else return (false, i, none, s)

/-- A request for any memory: device memory first, if that will do. -/
def allocAny (q : Request) (s : Utspace) : Except Failure (Option ℕ × Utspace) := do
  if q.canBeDev then
    let (done, i, cookie, s) ← allocFrom q .devMemHeads 0 s
    if done then return (cookie, s)
    else do
      let (_, _, cookie, s) ← allocFrom q .heads i s
      return (cookie, s)
  else do
    let (_, _, cookie, s) ← allocFrom q .heads 0 s
    return (cookie, s)

/-- `_utspace_split_alloc`; without a cookie it has set the error. -/
def alloc (q : Request) (s : Utspace) : Except Failure (Option ℕ × Utspace) :=
  if q.sizeOk = false ∨ q.sizeBits = 0 then .ok (none, s)
  else if q.sizeBits ≥ wordBits then .error .outOfBounds
  else
    match q.paddr with
    | some paddr => allocAt q paddr s
    | none => allocAny q s

/-- `_utspace_split_free`, from a node up to a parent whose other child is not free. -/
def free : ℕ → ℕ → Utspace → Except Failure Utspace
  | 0, _, _ => .error .noReturn
  | fuel + 1, node, s =>
    match s.parent node with
    | some parent =>
      if s.head (s.sibling node) = none then do
        let sibling := s.sibling node
        let s ← removeNode (s.originHead sibling) sibling s
        free fuel parent (deleteNode node (deleteNode sibling s))
      else
        match s.head node with
        | none => .error .nullPointer
        | some list => .ok (insertNode list node s)
    | none =>
      match s.head node with
      | none => .error .nullPointer
      | some list => .ok (insertNode list node s)

end SeL4Kernel.Split
