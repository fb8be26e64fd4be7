import SeL4Kernel.Camkes.DmaPool
import SeL4Kernel.Lib.LinkedList
import SeL4Kernel.Lib.Outcome

/-!
# The free list in memory

The nodes of the free list lie in the free memory, each with a pointer to the next one. `defrag`
walks over them with two pairs of pointers, unlinks nodes on the way and goes back.

When `q` is coalesced into `p` and is the node before it, the loop goes on with `pprev` at the
node that was just unlinked. If `p` were then coalesced into another node, it would be unlinked
from there, and stay in the list with its memory in two regions. This does not happen: the nodes
before `q` had been compared with `p`, and `p` has only grown at its end since, so that it
follows none of them (`Stale`).

* `Sim.defragLoop_eq`: the loop in memory does what `defragFrom` does to the list of the nodes.
-/

namespace SeL4Kernel.Camkes

open Function List

/-- Why a function does not return. -/
inductive Fault where
  | assertion
  | nullPointer
  | noReturn
  deriving DecidableEq, Repr

/-- `head`, and the fields of the `region_t` at every address. -/
structure FreeList where
  head : Option Nat
  next : Nat → Option Nat
  cached : Nat → Bool
  size : Nat → Nat
  paddrUpper : Nat → Nat

namespace FreeList

/-- The node at an address. -/
def region (h : FreeList) (v : Nat) : Region :=
  { vaddr := v, cached := h.cached v, size := h.size v, paddrUpper := h.paddrUpper v }

def extractPaddr (pools : List DmaPool) (v : Nat) (h : FreeList) : Except Fault FreeList :=
  let r := Camkes.extractPaddr pools (h.region v)
  if tryExtractPaddr r = 0 then .error .assertion
  else .ok { h with paddrUpper := update h.paddrUpper v r.paddrUpper }

def removeNode (previous : Option Nat) (node : Nat) (h : FreeList) : FreeList :=
  { h with
    head := (unlink h.head h.next previous node).1
    next := (unlink h.head h.next previous node).2 }

def growNode (node by' : Nat) (h : FreeList) : Except Fault FreeList :=
  if by' = 0 then .error .assertion
  else .ok { h with size := update h.size node (h.size node + by') }

/-- The inner loop of `defrag`, from `q` on: the first node before `p` that may be coalesced with
it, and `qprev`. -/
def scanBefore (pools : List DmaPool) (pprev : Option Nat) (p : Nat) :
    Nat → Option Nat → Option Nat → FreeList →
      Except Fault (FreeList × Option (Option Nat × Nat))
  | 0, _, _, _ => .error .noReturn
  | fuel + 1, qprev, q, h =>
    if q = some p then .ok (h, none)
    else
      match q with
      | none => .error .nullPointer
      | some q => do
        let h ← h.extractPaddr pools q
        if pprev = none then .error .assertion
        else if follows (h.region p) (h.region q) || follows (h.region q) (h.region p) then
          .ok (h, some (qprev, q))
        else scanBefore pools pprev p fuel (some q) (h.next q) h

def deref : Option Nat → Except Fault Nat
  | none => .error .nullPointer
  | some v => .ok v

/-- The body of the outer loop of `defrag`, and `p` after it. -/
def round (pools : List DmaPool) (fuel : Nat) (pprev : Option Nat) (p : Nat) (h : FreeList) :
    Except Fault (Nat × FreeList) := do
  let h ← h.extractPaddr pools p
  let (h, found) ← scanBefore pools pprev p fuel none h.head h
  match found with
  | none => .ok (p, h)
  | some (qprev, q) =>
    if follows (h.region p) (h.region q) then
      let h ← h.growNode q (h.size p)
      let h := h.removeNode pprev p
      -- to the node in front of the one that was grown, or to the head
      let p ← deref (if qprev = none then h.head else qprev)
      .ok (p, h)
    else
      let h ← h.growNode p (h.size q)
      let h := h.removeNode qprev q
      -- `pprev` may be the node that was just unlinked
      let p ← deref pprev
      .ok (p, h)

/-- The outer loop of `defrag`. -/
def defragLoop (pools : List DmaPool) : Nat → Option Nat → Option Nat → FreeList →
    Except Fault FreeList
  | 0, _, _, _ => .error .noReturn
  | _ + 1, _, none, h => .ok h
  | fuel + 1, pprev, some p, h => do
    let (p, h) ← round pools fuel pprev p h
    defragLoop pools fuel (some p) (h.next p) h

def defrag (pools : List DmaPool) (fuel : Nat) (h : FreeList) : Except Fault FreeList :=
  if h.head = none then .error .assertion else defragLoop pools fuel none h.head h

end FreeList

variable {pools : List DmaPool} {h : FreeList} {pprev p : Option Nat} {v w n fuel : Nat}
  {before raw rest : List Region} {r q : Region}

/-! ### Nodes -/

/-- What `extract_paddr` does to the node, if its assertion holds. -/
theorem FreeList.extractPaddr_eq
    (hne : tryExtractPaddr (Camkes.extractPaddr pools (h.region v)) ≠ 0) :
    h.extractPaddr pools v = .ok { h with
      paddrUpper := update h.paddrUpper v (Camkes.extractPaddr pools (h.region v)).paddrUpper } :=
  if_neg hne

/-- A physical address that is known is not looked up again. -/
theorem extractPaddr_known (hne : tryExtractPaddr r ≠ 0) : extractPaddr pools r = r := if_neg hne

theorem FreeList.extractPaddr_known (hne : tryExtractPaddr (h.region v) ≠ 0) :
    h.extractPaddr pools v = .ok h := by
  have hknown := @Camkes.extractPaddr_known pools _ hne
  rw [FreeList.extractPaddr_eq (by rwa [hknown]), hknown]
  dsimp only [region]
  rw [update_eq_self]

theorem extractPaddr_upper (r : Region) :
    { r with paddrUpper := (extractPaddr pools r).paddrUpper } = extractPaddr pools r := by
  rw [extractPaddr]
  split
  · rfl
  · rfl

theorem extractPaddr_fields (r : Region) :
    (extractPaddr pools r).vaddr = r.vaddr ∧ (extractPaddr pools r).size = r.size := by
  rw [← extractPaddr_upper]
  exact ⟨rfl, rfl⟩

/-- The nodes before the first one that may be coalesced with `p` may not. -/
theorem touching_front {p q : Region} {l front between : List Region}
    (h : touching p l = some (front, q, between)) : ∀ r ∈ front, follows p r = false := by
  induction l generalizing front with
  | nil => cases h
  | cons x l ih =>
    rw [touching] at h
    split at h
    next =>
      cases h
      exact forall_mem_nil _
    next ht =>
      obtain ⟨⟨front', q', between'⟩, hrec, heq⟩ := Option.map_eq_some_iff.mp h
      cases heq
      rw [Bool.or_eq_true_iff, not_or, Bool.not_eq_true] at ht
      exact forall_mem_cons.mpr ⟨ht.1, ih hrec⟩

theorem mem_of_touching {p q : Region} {l front between : List Region}
    (h : touching p l = some (front, q, between)) : q ∈ l := by
  rw [(touching_spec h).1]
  simp

/-! ### The inner loop -/

/-- **The inner loop** finds what `touching` finds, and the node before it. -/
theorem scanBefore_eq {v : Nat} {l : List Region} {qprev q : Option Nat}
    (hpath : Path h.next q (l.map Region.vaddr) (some v)) (hregion : ∀ r ∈ l, h.region r.vaddr = r)
    (hknown : ∀ r ∈ l, tryExtractPaddr r ≠ 0) (hv : v ∉ l.map Region.vaddr)
    (hprev : l ≠ [] → pprev ≠ none) (hfuel : l.length < fuel) :
    FreeList.scanBefore pools pprev v fuel qprev q h =
      .ok (h, (touching (h.region v) l).map fun (front, r, _) =>
        ((front.getLast?.map Region.vaddr).or qprev, r.vaddr)) := by
  induction l generalizing fuel qprev q with
  | nil =>
    obtain ⟨fuel, rfl⟩ : ∃ k, fuel = k + 1 := ⟨fuel - 1, by omega⟩
    exact if_pos hpath
  | cons r l ih =>
    obtain ⟨fuel, rfl⟩ : ∃ k, fuel = k + 1 := ⟨fuel - 1, by omega⟩
    obtain ⟨rfl, hpath⟩ := hpath
    have hr := hregion r mem_cons_self
    have hne : some r.vaddr ≠ some v := fun heq => hv (Option.some.inj heq ▸ mem_cons_self)
    have hextract : h.extractPaddr pools r.vaddr = .ok h :=
      FreeList.extractPaddr_known (by rw [hr]; exact hknown r mem_cons_self)
    rw [FreeList.scanBefore, if_neg hne]
    dsimp only
    rw [hextract]
    change (if pprev = none then _ else _) = _
    rw [if_neg (hprev (cons_ne_nil _ _)), hr, touching]
    split
    next => rfl
    next =>
      rw [ih hpath (fun x hx => hregion x (mem_cons_of_mem r hx))
        (fun x hx => hknown x (mem_cons_of_mem r hx)) (fun hm => hv (mem_cons_of_mem _ hm))
        (fun _ => hprev (cons_ne_nil _ _)) (by simpa using hfuel), Option.map_map]
      congr 3
      funext t
      obtain ⟨front, x, between⟩ := t
      rcases eq_nil_or_concat front with rfl | ⟨front, y, rfl⟩
      · rfl
      · rw [concat_eq_append]
        change (((front ++ [y]).getLast?.map Region.vaddr).or _, _) =
          (((r :: front ++ [y]).getLast?.map Region.vaddr).or _, _)
        rw [getLast?_concat, getLast?_concat]
        rfl

/-! ### The nodes of the list -/

/-- The regions are the nodes at their addresses. -/
structure Nodes (h : FreeList) (l : List Region) : Prop where
  region : ∀ r ∈ l, h.region r.vaddr = r
  nodup : (l.map Region.vaddr).Nodup
  size : ∀ r ∈ l, 0 < r.size

section

variable {h' : FreeList} {l l' : List Region} {r' : Region}

theorem Nodes.perm (hn : Nodes h l) (hp : l.Perm l') : Nodes h l' :=
  ⟨fun r hr => hn.region r (hp.mem_iff.mpr hr), (hp.map Region.vaddr).nodup_iff.mp hn.nodup,
    fun r hr => hn.size r (hp.mem_iff.mpr hr)⟩

theorem Nodes.tail (hn : Nodes h (r :: l)) : Nodes h l :=
  ⟨fun x hx => hn.region x (mem_cons_of_mem r hx), (nodup_cons.mp hn.nodup).2,
    fun x hx => hn.size x (mem_cons_of_mem r hx)⟩

theorem Nodes.notMem (hn : Nodes h (r :: l)) : r.vaddr ∉ l.map Region.vaddr :=
  (nodup_cons.mp hn.nodup).1

/-- One node is changed. -/
theorem Nodes.set (hn : Nodes h (r :: l)) (hvaddr : r'.vaddr = r.vaddr) (hsize : 0 < r'.size)
    (hr : h'.region r.vaddr = r') (hother : ∀ v ≠ r.vaddr, h'.region v = h.region v) :
    Nodes h' (r' :: l) := by
  refine ⟨forall_mem_cons.mpr ⟨hvaddr ▸ hr, fun x hx => ?_⟩, ?_,
    forall_mem_cons.mpr ⟨hsize, fun x hx => hn.size x (mem_cons_of_mem r hx)⟩⟩
  · rw [hother _ fun heq => hn.notMem (heq ▸ mem_map_of_mem hx)]
    exact hn.region x (mem_cons_of_mem r hx)
  · rw [map_cons, hvaddr, ← map_cons]
    exact hn.nodup

end

/-! ### The outer loop -/

/-- `pprev` is a node that was unlinked: it still points to `p`, and `p` follows none of the nodes
before it. -/
def Stale (pools : List DmaPool) (h : FreeList) (pprev : Option Nat) (before raw : List Region) :
    Prop :=
  ∃ v r rest, pprev = some v ∧ raw = r :: rest ∧ v ∉ (before ++ raw).map Region.vaddr ∧
    h.next v = some r.vaddr ∧ ∀ q ∈ before, follows (extractPaddr pools r) q = false

/-- The outer loop is at `p`, with the nodes `before` behind it and `raw` to come. -/
structure Sim (pools : List DmaPool) (h : FreeList) (pprev p : Option Nat)
    (before raw : List Region) : Prop where
  front : Path h.next h.head (before.map Region.vaddr) p
  back : Path h.next p (raw.map Region.vaddr) none
  nodes : Nodes h (before ++ raw)
  known : ∀ r ∈ before, tryExtractPaddr r ≠ 0
  lookup : ∀ r ∈ raw, tryExtractPaddr (extractPaddr pools r) ≠ 0
  prev : pprev = before.getLast?.map Region.vaddr ∨ Stale pools h pprev before raw

/-- `p` is looked up. -/
theorem Sim.extract (hsim : Sim pools h pprev p before (r :: rest)) :
    ∃ h', p = some r.vaddr ∧ h.extractPaddr pools r.vaddr = .ok h' ∧
      Sim pools h' pprev p before (extractPaddr pools r :: rest) := by
  have hr := hsim.nodes.region r (by simp)
  have hne := hsim.lookup r mem_cons_self
  obtain ⟨hvaddr, hsize⟩ := @extractPaddr_fields pools r
  have hknown : extractPaddr pools (extractPaddr pools r) = extractPaddr pools r :=
    extractPaddr_known hne
  refine ⟨_, hsim.back.1, FreeList.extractPaddr_eq (by rw [hr]; exact hne), hsim.front, ?_, ?_,
    hsim.known, forall_mem_cons.mpr ⟨by rwa [hknown], fun x hx =>
      hsim.lookup x (mem_cons_of_mem r hx)⟩, hsim.prev.imp id ?_⟩
  · rw [map_cons, hvaddr]
    exact hsim.back
  · refine ((hsim.nodes.perm perm_middle).set hvaddr ?_ ?_ fun v hv => ?_).perm perm_middle.symm
    · exact hsize ▸ hsim.nodes.size r (by simp)
    · dsimp only [FreeList.region]
      rw [update_self]
      change { h.region r.vaddr with
        paddrUpper := (extractPaddr pools (h.region r.vaddr)).paddrUpper } = _
      rw [hr, extractPaddr_upper]
    · dsimp only [FreeList.region]
      rw [update_of_ne hv]
  · rintro ⟨v, _, _, hv, heq, hout, hnext, hfollows⟩
    cases heq
    refine ⟨v, _, _, hv, rfl, ?_, by rw [hvaddr]; exact hnext, by rwa [hknown]⟩
    simpa [hvaddr] using hout

theorem Sim.path (hsim : Sim pools h pprev p before raw) :
    Path h.next h.head ((before ++ raw).map Region.vaddr) none := by
  rw [map_append]
  exact path_append.mpr ⟨p, hsim.front, hsim.back⟩

/-- The loop goes on behind a node of the list. -/
theorem Sim.ofLast (hpath : Path h.next h.head ((before ++ raw).map Region.vaddr) none)
    (hnodes : Nodes h (before ++ raw)) (hknown : ∀ r ∈ before, tryExtractPaddr r ≠ 0)
    (hlookup : ∀ r ∈ raw, tryExtractPaddr (extractPaddr pools r) ≠ 0)
    (hlast : before.getLast? = some q) :
    Sim pools h (some q.vaddr) (h.next q.vaddr) before raw := by
  obtain ⟨before, rfl⟩ : ∃ l, before = l ++ [q] := getLast?_eq_some_iff.mp hlast
  rw [map_append] at hpath
  obtain ⟨p, hfront, hback⟩ := path_append.mp hpath
  have hnext := (path_concat.mp (by simpa using hfront)).2
  refine ⟨?_, ?_, hnodes, hknown, hlookup, .inl (by rw [hlast]; rfl)⟩
  · rw [hnext]
    exact hfront
  · rw [hnext]
    exact hback

/-- The loop goes on behind a node outside of the list that points to `p`. -/
theorem Sim.ofStale (hpath : Path h.next h.head ((before ++ r :: rest).map Region.vaddr) none)
    (hnodes : Nodes h (before ++ r :: rest)) (hknown : ∀ x ∈ before, tryExtractPaddr x ≠ 0)
    (hlookup : ∀ x ∈ r :: rest, tryExtractPaddr (extractPaddr pools x) ≠ 0)
    (hout : v ∉ (before ++ r :: rest).map Region.vaddr) (hnext : h.next v = some r.vaddr)
    (hfollows : ∀ x ∈ before, follows (extractPaddr pools r) x = false) :
    Sim pools h (some v) (h.next v) before (r :: rest) := by
  rw [map_append] at hpath
  obtain ⟨p, hbefore, rfl, hafter⟩ := path_append.mp hpath
  refine ⟨?_, ?_, hnodes, hknown, hlookup, .inr ⟨v, _, _, rfl, rfl, hout, hnext, hfollows⟩⟩
  · rw [hnext]
    exact hbefore
  · rw [hnext]
    exact ⟨rfl, hafter⟩

/-! ### Coalescing -/

theorem FreeList.growNode_eq (hn : 0 < n) : h.growNode v n =
    .ok { h with size := update h.size v (h.size v + n) } := if_neg (Nat.ne_of_gt hn)

theorem Nodes.growNode {l : List Region} (hn : Nodes h (r :: l)) :
    Nodes { h with size := update h.size r.vaddr (h.size r.vaddr + n) }
      (Camkes.growNode r n :: l) := by
  have hr := hn.region r mem_cons_self
  refine hn.set rfl (Nat.lt_of_lt_of_le (hn.size r mem_cons_self) (Nat.le_add_right ..)) ?_
    fun v hv => ?_
  · dsimp only [FreeList.region]
    rw [update_self]
    change { h.region r.vaddr with size := (h.region r.vaddr).size + n } = _
    rw [hr]
    rfl
  · dsimp only [FreeList.region]
    rw [update_of_ne hv]

/-- A node is unlinked behind its predecessor. -/
theorem path_removeNode {l m : List Region}
    (hpath : Path h.next h.head ((l ++ r :: m).map Region.vaddr) none)
    (hnodup : ((l ++ r :: m).map Region.vaddr).Nodup) :
    Path (h.removeNode (l.getLast?.map Region.vaddr) r.vaddr).next
      (h.removeNode (l.getLast?.map Region.vaddr) r.vaddr).head
      ((l ++ m).map Region.vaddr) none := by
  rw [map_append, map_cons] at hpath hnodup
  rw [map_append, ← getLast?_map]
  exact hpath.unlink hnodup

variable {front between : List Region}

section

variable (hsim : Sim pools h pprev p before (r :: rest))
  (ht : touching r before = some (front, q, between))

include hsim ht

/-- `p` is coalesced into `q`. Its predecessor is in the list, since it follows `q`. -/
theorem Sim.coalesce (hr : tryExtractPaddr r ≠ 0) (hf : follows r q = true) :
    ∃ h', h.growNode q.vaddr (h.size r.vaddr) = .ok h' ∧
      Path (h'.removeNode pprev r.vaddr).next (h'.removeNode pprev r.vaddr).head
        ((front ++ growNode q r.size :: (between ++ rest)).map Region.vaddr) none ∧
      Nodes (h'.removeNode pprev r.vaddr) (front ++ growNode q r.size :: (between ++ rest)) := by
  obtain ⟨rfl, -⟩ := touching_spec ht
  have hprev : pprev = (front ++ q :: between).getLast?.map Region.vaddr := by
    rcases hsim.prev with hprev | ⟨_, _, _, -, heq, -, -, hfollows⟩
    · exact hprev
    · cases heq
      have := hfollows q (by simp)
      rw [extractPaddr_known hr, hf] at this
      cases this
  have hnode := hsim.nodes.region r (by simp)
  have hsize : h.size r.vaddr = r.size := congrArg Region.size hnode
  refine ⟨_, FreeList.growNode_eq (hsize ▸ hsim.nodes.size r (by simp)), ?_, ?_⟩
  · have hpath := path_removeNode (h := { h with
      size := update h.size q.vaddr (h.size q.vaddr + h.size r.vaddr) }) hsim.path hsim.nodes.nodup
    rw [← hprev] at hpath
    simpa [growNode] using hpath
  · have hperm : (front ++ q :: between ++ r :: rest).Perm
        (q :: r :: (front ++ (between ++ rest))) := by
      rw [append_assoc]
      refine perm_middle.trans (.cons q ?_)
      change (front ++ (between ++ r :: rest)).Perm _
      rw [← append_assoc, ← append_assoc]
      exact perm_middle
    have hgrown := (hsim.nodes.perm hperm).growNode (n := h.size r.vaddr)
    rw [hsize] at hgrown ⊢
    have htail := (hgrown.perm (.swap ..)).tail.perm perm_middle.symm
    exact ⟨htail.region, htail.nodup, htail.size⟩

/-- `q` is coalesced into `p`. -/
theorem Sim.absorb :
    ∃ h', h.growNode r.vaddr (h.size q.vaddr) = .ok h' ∧ h'.next = h.next ∧
      Path (h'.removeNode (front.getLast?.map Region.vaddr) q.vaddr).next
        (h'.removeNode (front.getLast?.map Region.vaddr) q.vaddr).head
        ((front ++ between ++ growNode r q.size :: rest).map Region.vaddr) none ∧
      Nodes (h'.removeNode (front.getLast?.map Region.vaddr) q.vaddr)
        (front ++ between ++ growNode r q.size :: rest) := by
  obtain ⟨rfl, -⟩ := touching_spec ht
  have hnode := hsim.nodes.region q (by simp)
  have hsize : h.size q.vaddr = q.size := congrArg Region.size hnode
  refine ⟨_, FreeList.growNode_eq (hsize ▸ hsim.nodes.size q (by simp)), rfl, ?_, ?_⟩
  · have hpath := hsim.path
    have hnodup := hsim.nodes.nodup
    rw [append_assoc, cons_append] at hpath hnodup
    have := path_removeNode (h := { h with
      size := update h.size r.vaddr (h.size r.vaddr + h.size q.vaddr) }) hpath hnodup
    simpa [growNode] using this
  · have hperm : (front ++ q :: between ++ r :: rest).Perm
        (r :: q :: (front ++ between ++ rest)) := by
      refine perm_middle.trans (.cons r ?_)
      rw [append_assoc, append_assoc]
      exact perm_middle
    have hgrown := (hsim.nodes.perm hperm).growNode (n := h.size q.vaddr)
    rw [hsize] at hgrown ⊢
    have htail := (hgrown.perm (.swap ..)).tail.perm perm_middle.symm
    exact ⟨htail.region, htail.nodup, htail.size⟩

end

/-! ### Rounds -/

theorem FreeList.next_removeNode {l : List Region} (hv : v ∉ l.map Region.vaddr) :
    (h.removeNode (l.getLast?.map Region.vaddr) w).next v = h.next v := by
  cases hlast : l.getLast? with
  | none => rfl
  | some u =>
    have hne : v ≠ u.vaddr := fun heq => hv (heq ▸ mem_map_of_mem (mem_of_getLast? hlast))
    exact update_of_ne hne ..

section

variable (hsim : Sim pools h pprev (some r.vaddr) before (r :: rest))
  (hr : tryExtractPaddr r ≠ 0)

include hsim

/-- What the inner loop finds for `p`. -/
theorem Sim.scanBefore_eq (hfuel : before.length < fuel) :
    FreeList.scanBefore pools pprev r.vaddr fuel none h.head h =
      .ok (h, (touching r before).map fun (front, q, _) =>
        (front.getLast?.map Region.vaddr, q.vaddr)) := by
  have hnode := hsim.nodes.region r (by simp)
  have hnotMem := (hsim.nodes.perm perm_middle).notMem
  rw [map_append, mem_append, not_or] at hnotMem
  rw [Camkes.scanBefore_eq hsim.front (fun x hx => hsim.nodes.region x (mem_append_left _ hx))
    hsim.known hnotMem.1 (fun hne hnone => ?_) hfuel]
  · rw [hnode]
    simp only [Option.or_none]
  · rcases hsim.prev with hprev | ⟨v, _, _, hv, -⟩
    · rw [hnone, eq_comm, Option.map_eq_none_iff, getLast?_eq_none_iff] at hprev
      exact hne hprev
    · rw [hv] at hnone
      cases hnone

/-- The nodes that are looked at again are known. -/
theorem Sim.lookup_again (ht : touching r before = some (front, q, between)) :
    ∀ x ∈ between ++ rest, tryExtractPaddr (extractPaddr pools x) ≠ 0 := by
  obtain ⟨rfl, -⟩ := touching_spec ht
  refine forall_mem_append.mpr ⟨fun x hx => ?_, fun x hx => hsim.lookup x (mem_cons_of_mem r hx)⟩
  have hx := hsim.known x (by simp [hx])
  rwa [extractPaddr_known hx]

theorem Sim.map_again (ht : touching r before = some (front, q, between)) :
    (between ++ rest).map (extractPaddr pools) = between ++ rest.map (extractPaddr pools) := by
  obtain ⟨rfl, -⟩ := touching_spec ht
  have hknown : between.map (extractPaddr pools) = between.map id := map_congr_left fun x hx =>
    extractPaddr_known (hsim.known x (by simp [hx]))
  rw [map_append, hknown, map_id]

include hr

/-- Nothing touches `p`. -/
theorem Sim.next : Sim pools h (some r.vaddr) (h.next r.vaddr) (before ++ [r]) rest := by
  refine .ofLast ?_ ?_ ?_ (fun x hx => hsim.lookup x (mem_cons_of_mem r hx)) getLast?_concat
  · rw [append_assoc]
    exact hsim.path
  · rw [append_assoc]
    exact hsim.nodes
  · exact forall_mem_append.mpr ⟨hsim.known, forall_mem_singleton.mpr hr⟩

/-- The loop goes on with `p` after it has grown. If `q` was its predecessor, `pprev` is stale. -/
theorem Sim.again (ht : touching r before = some (front, q, between)) {h' : FreeList}
    (hkept : ∀ v, v ∉ front.map Region.vaddr → h'.next v = h.next v)
    (hpath : Path h'.next h'.head ((front ++ between ++ growNode r q.size :: rest).map Region.vaddr)
      none)
    (hnodes : Nodes h' (front ++ between ++ growNode r q.size :: rest)) :
    ∃ back, pprev = some back ∧ Sim pools h' (some back) (h'.next back) (front ++ between)
      (growNode r q.size :: rest) := by
  have hgrown : extractPaddr pools (growNode r q.size) = growNode r q.size := extractPaddr_known hr
  have hlookup : ∀ x ∈ growNode r q.size :: rest, tryExtractPaddr (extractPaddr pools x) ≠ 0 :=
    forall_mem_cons.mpr ⟨by rw [hgrown]; exact hr,
      fun x hx => hsim.lookup x (mem_cons_of_mem r hx)⟩
  have hfront := touching_front ht
  obtain ⟨rfl, -⟩ := touching_spec ht
  have hknown : ∀ x ∈ front ++ between, tryExtractPaddr x ≠ 0 := fun x hx =>
    hsim.known x (by rcases mem_append.mp hx with hx | hx <;> simp [hx])
  have hnodup := hsim.nodes.nodup
  -- A node outside of the list is stale if it points to `p`.
  have hstale : ∀ {v}, v ∉ (front ++ between ++ r :: rest).map Region.vaddr →
      h.next v = some r.vaddr → (∀ x ∈ front ++ between, follows r x = false) →
      Sim pools h' (some v) (h'.next v) (front ++ between) (growNode r q.size :: rest) := by
    intro v hout hpoints hfollows
    refine .ofStale hpath hnodes hknown hlookup (by simpa [growNode] using hout) ?_
      (by rw [hgrown]; exact hfollows)
    rw [hkept v fun hv => hout ?_, hpoints]
    · rfl
    · rw [append_assoc, map_append]
      exact mem_append_left _ hv
  rcases hsim.prev with hprev | ⟨v, _, _, hv, heq, hout, hpoints, hfollows⟩
  · rcases eq_nil_or_concat between with rfl | ⟨between, x, rfl⟩
    · rw [getLast?_concat] at hprev
      refine ⟨_, hprev, hstale ?_ ?_ ?_⟩
      · rw [append_assoc, singleton_append, map_append, map_cons] at hnodup
        have := (nodup_cons.mp (perm_middle.nodup_iff.mp hnodup)).1
        rwa [append_nil, map_append]
      · have hpath := hsim.front
        rw [map_append] at hpath
        exact (path_concat.mp hpath).2
      · rwa [append_nil]
    · refine ⟨x.vaddr, ?_, .ofLast hpath hnodes hknown hlookup ?_⟩
      · rw [hprev, concat_eq_append, ← cons_append, ← append_assoc, getLast?_concat]
        rfl
      · rw [concat_eq_append, ← append_assoc, getLast?_concat]
  · cases heq
    refine ⟨v, hv, hstale (fun hmem => hout ?_) hpoints fun x hx => ?_⟩
    · simp only [map_append, map_cons, mem_append, mem_cons] at hmem ⊢
      tauto
    · have := hfollows x (by rcases mem_append.mp hx with hx | hx <;> simp [hx])
      rwa [extractPaddr_known hr] at this

end

/-! ### The whole list -/

/-- From enough fuel on the loop ends with the nodes `l`. -/
def Ends (pools : List DmaPool) (h : FreeList) (pprev p : Option Nat) (l : List Region) : Prop :=
  ∃ n h', (∀ fuel, n ≤ fuel → FreeList.defragLoop pools fuel pprev p h = .ok h') ∧
    Path h'.next h'.head (l.map Region.vaddr) none ∧ Nodes h' l

/-- One round of the loop. -/
theorem Ends.round {h₁ h' : FreeList} {v back k : Nat} {l : List Region}
    (hends : Ends pools h' (some back) (h'.next back) l)
    (hround : ∀ fuel, k < fuel → FreeList.round pools fuel pprev v h₁ = .ok (back, h')) :
    Ends pools h₁ pprev (some v) l := by
  obtain ⟨n, h'', hfuel, hlist⟩ := hends
  refine ⟨max n (k + 1) + 1, h'', fun fuel hle => ?_, hlist⟩
  obtain ⟨fuel, rfl⟩ : ∃ m, fuel = m + 1 := ⟨fuel - 1, by omega⟩
  rw [FreeList.defragLoop, hround fuel (by omega)]
  exact hfuel fuel (by omega)

/-- A round begins: `p` is looked up, and compared with the nodes before it. -/
theorem Sim.enter {x : Region} {after : List Region} (hsim : Sim pools h pprev p before raw)
    (hafter : x :: after = raw.map (extractPaddr pools)) :
    ∃ h₁ rest, p = some x.vaddr ∧ after = rest.map (extractPaddr pools) ∧ tryExtractPaddr x ≠ 0 ∧
      h.extractPaddr pools x.vaddr = .ok h₁ ∧
      Sim pools h₁ pprev (some x.vaddr) before (x :: rest) := by
  obtain ⟨r, rest, rfl, rfl, rfl⟩ := map_eq_cons_iff.mp hafter.symm
  obtain ⟨h₁, rfl, hextract, hsim₁⟩ := hsim.extract
  have hvaddr := (@extractPaddr_fields pools r).1
  refine ⟨h₁, rest, by rw [hvaddr], rfl, hsim.lookup r mem_cons_self, by rwa [hvaddr], ?_⟩
  rwa [hvaddr]

/-- A node that may be coalesced with `p` is found. -/
theorem Sim.round_eq {h₁ : FreeList} (hsim : Sim pools h₁ pprev (some r.vaddr) before (r :: rest))
    (hextract : h.extractPaddr pools r.vaddr = .ok h₁)
    (ht : touching r before = some (front, q, between)) (hfuel : before.length < fuel) :
    FreeList.round pools fuel pprev r.vaddr h =
      if follows r q then (do
        let h ← h₁.growNode q.vaddr (h₁.size r.vaddr)
        let h := h.removeNode pprev r.vaddr
        let p ← FreeList.deref (if front.getLast?.map Region.vaddr = none then h.head
          else front.getLast?.map Region.vaddr)
        .ok (p, h))
      else (do
        let h ← h₁.growNode r.vaddr (h₁.size q.vaddr)
        let h := h.removeNode (front.getLast?.map Region.vaddr) q.vaddr
        let p ← FreeList.deref pprev
        .ok (p, h)) := by
  rw [FreeList.round, hextract, ok_bind, hsim.scanBefore_eq hfuel, ht, ok_bind]
  dsimp only [Option.map_some]
  rw [hsim.nodes.region r (by simp), hsim.nodes.region q (mem_append_left _ (mem_of_touching ht))]

/-- **The loop in memory** does to the nodes what `defragFrom` does to the list. -/
theorem Sim.defragLoop_eq {after : List Region} (hsim : Sim pools h pprev p before raw)
    (hafter : after = raw.map (extractPaddr pools)) :
    Ends pools h pprev p (defragFrom before after) := by
  fun_induction defragFrom before after generalizing h pprev p raw with
  | case1 before =>
    obtain rfl := map_eq_nil_iff.mp hafter.symm
    obtain rfl : p = none := hsim.back
    refine ⟨1, h, fun fuel hfuel => ?_, hsim.front, by simpa using hsim.nodes⟩
    obtain ⟨fuel, rfl⟩ : ∃ k, fuel = k + 1 := ⟨fuel - 1, by omega⟩
    rfl
  | case2 before x after ht ih =>
    obtain ⟨h₁, rest, rfl, rfl, hx, hextract, hsim₁⟩ := hsim.enter hafter
    refine (ih (hsim₁.next hx) rfl).round (k := before.length) fun fuel hfuel => ?_
    rw [FreeList.round, hextract, ok_bind, hsim₁.scanBefore_eq hfuel, ht]
    rfl
  | case3 before x after q between hf ht hlen ih =>
    -- `p` is coalesced into the head, and the loop goes on behind it
    obtain ⟨h₁, rest, rfl, rfl, hx, hextract, hsim₁⟩ := hsim.enter hafter
    obtain ⟨h₂, hgrow, hpath, hnodes⟩ := hsim₁.coalesce ht hx hf
    have hq : tryExtractPaddr (growNode q x.size) ≠ 0 := hsim₁.known q (mem_of_touching ht)
    refine (ih (.ofLast hpath hnodes (forall_mem_singleton.mpr hq) (hsim₁.lookup_again ht) rfl)
      (hsim₁.map_again ht).symm).round (k := before.length) fun fuel hfuel => ?_
    rw [hsim₁.round_eq hextract ht hfuel, if_pos hf, hgrow, ok_bind]
    dsimp only
    rw [getLast?_nil, Option.map_none, if_pos rfl, hpath.1]
    rfl
  | case4 before x after front q between ht hlen hf hfront ih =>
    -- `p` is coalesced into `q`, and the loop goes on with `q`
    obtain ⟨h₁, rest, rfl, rfl, hx, hextract, hsim₁⟩ := hsim.enter hafter
    obtain ⟨h₂, hgrow, hpath, hnodes⟩ := hsim₁.coalesce ht hx hf
    have hq : tryExtractPaddr (growNode q x.size) ≠ 0 := hsim₁.known q (mem_of_touching ht)
    have hgrown : extractPaddr pools (growNode q x.size) = growNode q x.size :=
      extractPaddr_known hq
    have hlast := getLast?_eq_some_getLast hfront
    have hknown : ∀ y ∈ front, tryExtractPaddr y ≠ 0 := fun y hy =>
      hsim₁.known y ((touching_spec ht).1 ▸ mem_append_left _ hy)
    refine (ih (.ofLast hpath hnodes hknown
      (forall_mem_cons.mpr ⟨by rwa [hgrown], hsim₁.lookup_again ht⟩) hlast) ?_).round
      (k := before.length) fun fuel hfuel => ?_
    · rw [map_cons, hgrown, hsim₁.map_again ht]
    · rw [hsim₁.round_eq hextract ht hfuel, if_pos hf, hgrow, ok_bind, hlast]
      rfl
  | case5 before x after front q between ht hlen hf ih =>
    -- `q` is coalesced into `p`, and the loop goes on with `p`
    obtain ⟨h₁, rest, rfl, rfl, hx, hextract, hsim₁⟩ := hsim.enter hafter
    obtain ⟨h₂, hgrow, hnext, hpath, hnodes⟩ := hsim₁.absorb ht
    obtain ⟨back, rfl, hagain⟩ := hsim₁.again hx ht (fun v hv =>
      (FreeList.next_removeNode hv).trans (congrFun hnext v)) hpath hnodes
    refine (ih hagain ?_).round (k := before.length) fun fuel hfuel => ?_
    · rw [map_cons, show extractPaddr pools (growNode x q.size) = _ from extractPaddr_known hx]
    · rw [hsim₁.round_eq hextract ht hfuel, if_neg hf, hgrow, ok_bind]
      rfl

/-- `defrag` begins with the whole list in front of it. -/
theorem FreeList.defrag_eq {free : List Region} (hne : free ≠ [])
    (hpath : Path h.next h.head (free.map Region.vaddr) none) (hnodes : Nodes h free)
    (hlookup : ∀ r ∈ free, tryExtractPaddr (Camkes.extractPaddr pools r) ≠ 0) :
    ∃ n h', (∀ fuel, n ≤ fuel → h.defrag pools fuel = .ok h') ∧
      Path h'.next h'.head ((Camkes.defrag pools free).map Region.vaddr) none ∧
      Nodes h' (Camkes.defrag pools free) := by
  have hsim : Sim pools h none h.head [] free :=
    ⟨rfl, hpath, hnodes, nofun, hlookup, .inl rfl⟩
  have hhead : h.head ≠ none := by
    obtain ⟨r, free, rfl⟩ := exists_cons_of_ne_nil hne
    rw [hpath.1]
    nofun
  obtain ⟨n, h', hfuel, hlist⟩ := hsim.defragLoop_eq rfl
  exact ⟨n, h', fun fuel hle => (if_neg hhead).trans (hfuel fuel hle), hlist⟩

end SeL4Kernel.Camkes
