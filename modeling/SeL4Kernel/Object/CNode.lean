import SeL4Kernel.Object.Cap

/-!
# The mapping database

`src/object/cnode.c`: every slot holds a capability and a node of the mapping
database, a doubly linked list through all slots in use. The list is a preorder
of the derivation tree; the tree itself is not stored and has to be read back
from the order, from the two flags `mdbRevocable` and `mdbFirstBadged` and from
comparisons of capabilities (`isMDBParentOf`).

The functions below are the ones that insert, move, swap and remove one slot,
and the tests on a slot's neighbours (`ensureNoChildren`, `isFinalCapability`).
-/

namespace SeL4Kernel

open Function

/-- `mdb_node_t`. -/
structure MdbNode where
  mdbNext : Option Slot
  mdbRevocable : Bool
  mdbFirstBadged : Bool
  mdbPrev : Option Slot
  deriving DecidableEq, Repr

def nullMDBNode : MdbNode :=
  { mdbNext := none, mdbRevocable := false, mdbFirstBadged := false, mdbPrev := none }

/-- All capability table entries: `slot->cap` is `cap slot` and
`slot->cteMDBNode` is `mdb slot`. -/
structure CSpace where
  cap : Slot → Cap
  mdb : Slot → MdbNode

namespace CSpace

def setCap (cs : CSpace) (slot : Slot) (cap : Cap) : CSpace :=
  { cs with cap := update cs.cap slot cap }

def setMdb (cs : CSpace) (slot : Slot) (node : MdbNode) : CSpace :=
  { cs with mdb := update cs.mdb slot node }

/-- `mdb_node_ptr_set_mdbNext`, on the slot a pointer leads to if it is not
null. -/
def setMdbNext (cs : CSpace) (ptr : Option Slot) (next : Option Slot) : CSpace :=
  match ptr with
  | none => cs
  | some slot => cs.setMdb slot { cs.mdb slot with mdbNext := next }

/-- `mdb_node_ptr_set_mdbPrev`, on the slot a pointer leads to if it is not
null. -/
def setMdbPrev (cs : CSpace) (ptr : Option Slot) (prev : Option Slot) : CSpace :=
  match ptr with
  | none => cs
  | some slot => cs.setMdb slot { cs.mdb slot with mdbPrev := prev }

variable (cs : CSpace) (slot : Slot)

@[simp] theorem cap_setCap (c : Cap) : (cs.setCap slot c).cap = update cs.cap slot c := rfl

@[simp] theorem mdb_setCap (c : Cap) : (cs.setCap slot c).mdb = cs.mdb := rfl

@[simp] theorem cap_setMdb (n : MdbNode) : (cs.setMdb slot n).cap = cs.cap := rfl

@[simp] theorem mdb_setMdb (n : MdbNode) : (cs.setMdb slot n).mdb = update cs.mdb slot n := rfl

@[simp] theorem cap_setMdbNext (ptr next : Option Slot) :
    (cs.setMdbNext ptr next).cap = cs.cap := by
  cases ptr <;> rfl

@[simp] theorem cap_setMdbPrev (ptr prev : Option Slot) :
    (cs.setMdbPrev ptr prev).cap = cs.cap := by
  cases ptr <;> rfl

end CSpace

/-! ### Looking at the neighbours -/

/-- Whether slot `a` is an ancestor of slot `b`, given that `b` follows `a` in the
list with only descendants of `a` between them. -/
def isMDBParentOf (cfg : Config) (cs : CSpace) (a b : Slot) : Bool :=
  (cs.mdb a).mdbRevocable && sameRegionAs cfg (cs.cap a) (cs.cap b) &&
    match cs.cap a, cs.cap b with
    | .endpoint ca, .endpoint cb =>
      ca.capEPBadge == 0 || (ca.capEPBadge == cb.capEPBadge && !(cs.mdb b).mdbFirstBadged)
    | .notification ca, .notification cb =>
      ca.capNtfnBadge == 0 || (ca.capNtfnBadge == cb.capNtfnBadge && !(cs.mdb b).mdbFirstBadged)
    | _, _ => true

/-- `ensureNoChildren`: true when the slot has no child. -/
def ensureNoChildren (cfg : Config) (cs : CSpace) (slot : Slot) : Bool :=
  match (cs.mdb slot).mdbNext with
  | none => true
  | some next => !isMDBParentOf cfg cs slot next

/-- `ensureEmptySlot`. -/
def ensureEmptySlot (cs : CSpace) (slot : Slot) : Bool := cs.cap slot == .null

/-- Whether no other capability refers to the same object, judged by the two
neighbours alone. -/
def isFinalCapability (cfg : Config) (cs : CSpace) (slot : Slot) : Bool :=
  let prevIsSameObject :=
    match (cs.mdb slot).mdbPrev with
    | none => false
    | some prev => sameObjectAs cfg (cs.cap prev) (cs.cap slot)
  if prevIsSameObject then false
  else
    match (cs.mdb slot).mdbNext with
    | none => true
    | some next => !sameObjectAs cfg (cs.cap slot) (cs.cap next)

/-- `deriveCap`: the capability a copy of `cap`, which is in `slot`, may carry;
`none` is an error. -/
def deriveCap (cfg : Config) (cs : CSpace) (slot : Slot) (cap : Cap) : Option Cap :=
  match cap with
  | .pageTable c => if c.capPTIsMapped then some cap else none
  | .frame c => some (.frame { c with capFMappedAddress := 0, capFMappedASID := 0 })
  | .zombie _ | .irqControl | .reply _ _ _ => some .null
  | .untyped _ => if ensureNoChildren cfg cs slot then some cap else none
  | _ => some cap

/-! ### Inserting and removing one slot -/

/-- `MAX_FREE_INDEX`: free indices count units of `seL4_MinUntypedBits`. -/
def maxFreeIndex (sizeBits : Nat) : Nat := 2 ^ (sizeBits - 4)

def setUntypedCapAsFull (srcCap newCap : Cap) (srcSlot : Slot) (cs : CSpace) : CSpace :=
  match srcCap, newCap with
  | .untyped src, .untyped new =>
    if src.capPtr = new.capPtr ∧ new.capBlockSize = src.capBlockSize then
      cs.setCap srcSlot (.untyped { src with capFreeIndex := maxFreeIndex src.capBlockSize })
    else cs
  | _, _ => cs

def cteInsert (newCap : Cap) (srcSlot destSlot : Slot) (cs : CSpace) : CSpace :=
  let srcMDB := cs.mdb srcSlot
  let srcCap := cs.cap srcSlot
  let newCapIsRevocable := isCapRevocable newCap srcCap
  let newMDB : MdbNode := { srcMDB with
    mdbPrev := some srcSlot
    mdbRevocable := newCapIsRevocable
    mdbFirstBadged := newCapIsRevocable }
  let cs := setUntypedCapAsFull srcCap newCap srcSlot cs
  let cs := cs.setCap destSlot newCap
  let cs := cs.setMdb destSlot newMDB
  let cs := cs.setMdbNext (some srcSlot) (some destSlot)
  cs.setMdbPrev newMDB.mdbNext (some destSlot)

def cteMove (newCap : Cap) (srcSlot destSlot : Slot) (cs : CSpace) : CSpace :=
  let mdb := cs.mdb srcSlot
  let cs := cs.setCap destSlot newCap
  let cs := cs.setCap srcSlot .null
  let cs := cs.setMdb destSlot mdb
  let cs := cs.setMdb srcSlot nullMDBNode
  let cs := cs.setMdbNext mdb.mdbPrev (some destSlot)
  cs.setMdbPrev mdb.mdbNext (some destSlot)

def cteSwap (cap1 : Cap) (slot1 : Slot) (cap2 : Cap) (slot2 : Slot) (cs : CSpace) : CSpace :=
  let cs := cs.setCap slot1 cap2
  let cs := cs.setCap slot2 cap1
  let mdb1 := cs.mdb slot1
  let cs := cs.setMdbNext mdb1.mdbPrev (some slot2)
  let cs := cs.setMdbPrev mdb1.mdbNext (some slot2)
  -- read after the neighbours of the first slot were updated, which may be `slot2`
  let mdb2 := cs.mdb slot2
  let cs := cs.setMdb slot1 mdb2
  let cs := cs.setMdb slot2 mdb1
  let cs := cs.setMdbNext mdb2.mdbPrev (some slot1)
  cs.setMdbPrev mdb2.mdbNext (some slot1)

def capSwapForDelete (slot1 slot2 : Slot) (cs : CSpace) : CSpace :=
  if slot1 = slot2 then cs else cteSwap (cs.cap slot1) slot1 (cs.cap slot2) slot2 cs

/-- `emptySlot`, without the clean-up of an interrupt handler's state
(`postCapDeletion`), which is not part of the capability space. -/
def emptySlot (slot : Slot) (cs : CSpace) : CSpace :=
  if cs.cap slot = .null then cs
  else
    let mdbNode := cs.mdb slot
    let prev := mdbNode.mdbPrev
    let next := mdbNode.mdbNext
    let cs := cs.setMdbNext prev next
    let cs := cs.setMdbPrev next prev
    -- a badged original hands its mark to its right neighbour
    let cs :=
      match next with
      | none => cs
      | some n => cs.setMdb n { cs.mdb n with
          mdbFirstBadged := (cs.mdb n).mdbFirstBadged || mdbNode.mdbFirstBadged }
    let cs := cs.setCap slot .null
    cs.setMdb slot nullMDBNode

def insertNewCap (parent slot : Slot) (cap : Cap) (cs : CSpace) : CSpace :=
  let next := (cs.mdb parent).mdbNext
  let cs := cs.setCap slot cap
  let cs := cs.setMdb slot
    { mdbNext := next, mdbRevocable := true, mdbFirstBadged := true, mdbPrev := some parent }
  let cs := cs.setMdbPrev next (some slot)
  cs.setMdbNext (some parent) (some slot)

end SeL4Kernel
