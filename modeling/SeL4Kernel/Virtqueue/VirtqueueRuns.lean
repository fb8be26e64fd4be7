import SeL4Kernel.Virtqueue.Virtqueue

/-!
# The two rings are queues

The driver and the device take turns, each with a whole chain. As long as neither ring gets as
many entries as the queue has descriptors, the chains that the device obtains and the entries that
the driver gets back are those that were put in, in their order (`chains_kept`).

A ring with as many entries as there are descriptors has equal ends, and its reader takes it for an
empty one (`fullRing_lost`).
-/

namespace SeL4Kernel.Virtqueue

open Function List Prod

/-! ### Turns -/

/-- The memory with what was done so far. -/
structure Run where
  vq : Vq
  /-- The chains that the driver has added. -/
  added : List (List Buf)
  /-- The chains that the device has obtained. -/
  obtained : List (List Buf)
  /-- The chains that the device has and did not put into the used ring. -/
  held : List (ℕ × List Buf)
  /-- The used entries, each with the chain that it is for. -/
  used : List (UsedElem × List Buf)
  /-- The used entries that the driver got, each with what it gathered. -/
  collected : List (UsedElem × List Buf)

inductive Op where
  /-- The driver builds a chain. -/
  | addChain (bufs : List Buf)
  /-- The device takes a chain and gathers it. -/
  | takeChain
  /-- The device puts one of the chains that it has into the used ring. -/
  | returnChain (i len : ℕ)
  /-- The driver gets an entry back and gathers its chain. -/
  | collectChain

/-- What an operation does; `none` when it does not end. -/
def step (s : Run) : Op → Option Run
  | .addChain bufs =>
    let (taken, vq) := addBufs bufs initRingObject s.vq
    some { s with vq := vq, added := if taken = [] then s.added else s.added ++ [taken] }
  | .takeChain =>
    match getAvailableBuf s.vq with
    | none => some s
    | some (robj, vq) =>
      (gatherAllAvailable (vq.queueLen + 1) robj vq).map fun bufs =>
        { s with
          vq := vq
          obtained := s.obtained ++ [bufs]
          held := s.held ++ [(robj.first, bufs)] }
  | .returnChain i len =>
    match s.held[i]? with
    | none => some s
    | some (first, bufs) =>
      some { s with
        vq := addUsedBuf first len s.vq
        held := s.held.eraseIdx i
        used := s.used ++ [(⟨first, len⟩, bufs)] }
  | .collectChain =>
    match getUsedBuf s.vq with
    | none => some s
    | some (robj, len, vq) =>
      (gatherAllUsed (vq.queueLen + 1) robj vq).map fun (bufs, vq) =>
        { s with vq := vq, collected := s.collected ++ [(⟨robj.first, len⟩, bufs)] }

def start (queueLen : ℕ) : Run := ⟨init queueLen, [], [], [], [], []⟩

/-- An operation that writes a ring leaves a place of it free. -/
def Roomy (s : Run) : Op → Prop
  | .addChain bufs => bufs = [] ∨ s.vq.freeDescHead = s.vq.queueLen ∨
    s.added.length + 1 < s.obtained.length + s.vq.queueLen
  | .takeChain => True
  | .returnChain i _ => s.held.length ≤ i ∨
    s.used.length + 1 < s.collected.length + s.vq.queueLen
  | .collectChain => True

instance (s : Run) (op : Op) : Decidable (Roomy s op) := by
  cases op <;> unfold Roomy <;> infer_instance

/-- The states after operations that all meet a condition. -/
inductive Reaches (ok : Run → Op → Prop) (queueLen : ℕ) : Run → Prop
  | start : Reaches ok queueLen (start queueLen)
  | step {s s' : Run} (op : Op) :
      Reaches ok queueLen s → ok s op → step s op = some s' → Reaches ok queueLen s'

/-- What a virtqueue is for. -/
structure Kept (s : Run) : Prop where
  obtained : s.obtained <+: s.added
  collected : s.collected <+: s.used
  allObtained : getAvailableBuf s.vq = none → s.obtained = s.added
  allCollected : getUsedBuf s.vq = none → s.collected = s.used

/-! ### The invariant -/

/-- The used entry of a chain. -/
def entry (n : ℕ) (u : Chain × ℕ) : UsedElem := ⟨u.1.head n, u.2⟩

/-- The descriptors are free, or in chains that wait for the device, that the device has, or that
are used. -/
structure VqInv (vq : Vq) (frees : List ℕ) (ps hs : List Chain) (us : List (Chain × ℕ)) :
    Prop where
  len : ∃ k, 1 ≤ k ∧ k ≤ 15 ∧ vq.queueLen = 2 ^ k
  table : Table vq.desc vq.queueLen vq.freeDescHead frees (ps ++ hs ++ us.map Prod.fst)
  nonempty : ∀ c ∈ ps ++ hs ++ us.map Prod.fst, c.ixs ≠ []
  avail : Circular vq.queueLen vq.availRing vq.availIdx vq.aRingLastSeen
    (ps.map (Chain.head vq.queueLen))
  used : Circular vq.queueLen vq.usedRing vq.usedIdx vq.uRingLastSeen
    (us.map (entry vq.queueLen))

variable {vq : Vq} {frees : List ℕ} {ps hs : List Chain} {us : List (Chain × ℕ)} {c : Chain}

namespace VqInv

theorem mask (h : VqInv vq frees ps hs us) (x : ℕ) : x &&& (vq.queueLen - 1) = x % vq.queueLen := by
  obtain ⟨k, -, -, hk⟩ := h.len
  rw [hk]
  exact Nat.and_two_pow_sub_one_eq_mod x k

theorem queueLen_le (h : VqInv vq frees ps hs us) : vq.queueLen ≤ 2 ^ 15 := by
  obtain ⟨k, -, hle, hk⟩ := h.len
  rw [hk]
  exact Nat.pow_le_pow_right (by decide) hle

/-- A chain has at most as many descriptors as the table. -/
theorem length_le (h : VqInv vq frees ps hs us)
    (hc : c ∈ ps ++ hs ++ us.map fst) : c.ixs.length ≤ vq.queueLen := by
  have hnodup : c.ixs.Nodup := (nodup_flatMap.1 (nodup_append.1 h.table.nodup).2.1).1 c hc
  have hsub : c.ixs ⊆ List.range vq.queueLen := by
    intro i hi
    exact mem_range.2 (h.table.lt i (mem_append_right _ (mem_flatMap_ixs hc hi)))
  have hle := (subperm_of_subset hnodup hsub).length_le
  rw [length_range] at hle
  exact hle

theorem init {k : ℕ} (hk : 1 ≤ k) (hk' : k ≤ 15) :
    VqInv (init (2 ^ k)) (List.range (2 ^ k)) [] [] [] where
  len := ⟨k, hk, hk', rfl⟩
  table := table_init _
  nonempty := by simp
  avail := Circular.empty (Nat.two_pow_pos k) _
  used := Circular.empty (Nat.two_pow_pos k) _

end VqInv

/-! ### Adding a chain -/

theorem perm_added (c : Chain) : (c :: (ps ++ hs ++ us.map fst)).Perm
    (ps ++ [c] ++ hs ++ us.map fst) := by
  simp only [append_assoc, cons_append, nil_append]
  exact perm_middle.symm

theorem addAvailableBuf_full (h : VqInv vq [] ps hs us) (obj : RingObject) (buf : Buf) :
    addAvailableBuf obj buf vq = none := by
  have hfree : vq.freeDescHead = vq.queueLen := h.table.links
  simp only [addAvailableBuf, vqAddDesc, hfree, if_true]

/-- The first buffer starts a chain and puts it into the available ring. -/
theorem addAvailableBuf_first {z : ℕ} (h : VqInv vq (z :: frees) ps hs us)
    (hlen : ps.length + 1 < vq.queueLen) (buf : Buf) :
    ∃ vq', addAvailableBuf initRingObject buf vq = some (⟨z, z⟩, vq') ∧
      VqInv vq' frees (ps ++ [⟨[z], [buf]⟩]) hs us ∧ vq'.queueLen = vq.queueLen := by
  obtain ⟨hhead, hlt, -, -⟩ := h.table.head_free
  have hbound := h.queueLen_le
  have hno : ¬initRingObject.cur < vq.queueLen := by
    dsimp only [initRingObject]
    omega
  have hfirst : initRingObject.first ≥ vq.queueLen := by
    dsimp only [initRingObject]
    omega
  refine ⟨{ vq with
      freeDescHead := (vq.desc z).next
      desc := update vq.desc z ⟨buf, vq.queueLen⟩
      availRing := update vq.availRing vq.availIdx z
      availIdx := (vq.availIdx + 1) &&& (vq.queueLen - 1) }, ?_, ?_, rfl⟩
  · have hne : ¬z = vq.queueLen := by omega
    simp only [addAvailableBuf, vqAddDesc, hhead, if_neg hne, if_neg hno, if_pos hfirst]
  refine ⟨h.len, (h.table.alloc buf).perm (perm_added _), ?_, ?_, h.used⟩
  · intro c hc
    rcases mem_cons.1 ((perm_added _).mem_iff.2 hc) with rfl | hmem
    · exact cons_ne_nil _ _
    · exact h.nonempty c hmem
  · have hpush := h.avail.push (by rw [length_map]; exact hlen) z
    rw [← h.mask] at hpush
    rw [map_append]
    exact hpush

/-- A further buffer is linked behind the chain that is being built. -/
theorem addAvailableBuf_next {z y first : ℕ} {ixs : List ℕ} {bufs : List Buf}
    (h : VqInv vq (z :: frees) (ps ++ [⟨ixs ++ [y], bufs⟩]) hs us) (hfirst : first < vq.queueLen)
    (buf : Buf) :
    ∃ vq', addAvailableBuf ⟨y, first⟩ buf vq = some (⟨z, first⟩, vq') ∧
      VqInv vq' frees (ps ++ [⟨ixs ++ [y, z], bufs ++ [buf]⟩]) hs us ∧
      vq'.queueLen = vq.queueLen := by
  obtain ⟨hhead, hlt, -, -⟩ := h.table.head_free
  have hy : y < vq.queueLen := by
    refine h.table.lt y (mem_append_right _ ?_)
    exact mem_flatMap_ixs ((perm_added _).mem_iff.1 mem_cons_self) (by simp)
  refine ⟨{ vq with
      freeDescHead := (vq.desc z).next
      desc := update (update vq.desc z ⟨buf, vq.queueLen⟩) y
        { update vq.desc z ⟨buf, vq.queueLen⟩ y with next := z } }, ?_, ?_, rfl⟩
  · have hne : ¬z = vq.queueLen := by omega
    have hstarted : ¬first ≥ vq.queueLen := by omega
    simp only [addAvailableBuf, vqAddDesc, hhead, if_neg hne, if_pos hy, if_neg hstarted]
  · have htable := (h.table.perm (perm_added _).symm).append buf
    refine ⟨h.len, htable.perm (perm_added _), ?_, ?_, h.used⟩
    · intro c hc
      rcases mem_cons.1 ((perm_added _).mem_iff.2 hc) with rfl | hmem
      · simp
      · exact h.nonempty c ((perm_added _).mem_iff.1 (mem_cons_of_mem _ hmem))
    · -- the first descriptor of the chain stays, and so do the entries of the ring
      have hsame : (ps ++ [(⟨ixs ++ [y, z], bufs ++ [buf]⟩ : Chain)]).map
            (Chain.head vq.queueLen) =
          (ps ++ [(⟨ixs ++ [y], bufs⟩ : Chain)]).map (Chain.head vq.queueLen) := by
        rw [map_append, map_append]
        cases ixs <;> rfl
      rw [hsame]
      exact h.avail

/-- The chain that is being built grows until there is no free descriptor. -/
theorem addBufs_next (rest : List Buf) {y first : ℕ} {ixs : List ℕ} {bufs : List Buf}
    (h : VqInv vq frees (ps ++ [⟨ixs ++ [y], bufs⟩]) hs us) (hfirst : first < vq.queueLen) :
    ∃ taken vq' frees' c, addBufs rest ⟨y, first⟩ vq = (taken, vq') ∧ c.bufs = bufs ++ taken ∧
      VqInv vq' frees' (ps ++ [c]) hs us ∧ vq'.queueLen = vq.queueLen := by
  induction rest generalizing vq frees y ixs bufs with
  | nil => exact ⟨[], vq, frees, _, rfl, (append_nil _).symm, h, rfl⟩
  | cons buf rest ih =>
    cases frees with
    | nil =>
      refine ⟨[], vq, [], _, ?_, (append_nil _).symm, h, rfl⟩
      rw [addBufs, addAvailableBuf_full h]
    | cons z frees =>
      obtain ⟨vq1, hadd, hinv, hlen⟩ := addAvailableBuf_next h hfirst buf
      have hsplit : ixs ++ [y, z] = (ixs ++ [y]) ++ [z] := by simp
      rw [hsplit] at hinv
      obtain ⟨taken, vq', frees', c, hrest, hbufs, hinv', hlen'⟩ := ih hinv (hlen ▸ hfirst)
      refine ⟨buf :: taken, vq', frees', c, ?_, ?_, hinv', hlen'.trans hlen⟩
      · rw [addBufs, hadd]
        dsimp only
        rw [hrest]
      · rw [hbufs, append_assoc]
        rfl

/-- Either nothing is added, or a chain with the buffers that were taken. -/
theorem addBufs_spec (bufs : List Buf) (h : VqInv vq frees ps hs us)
    (hlen : bufs = [] ∨ vq.freeDescHead = vq.queueLen ∨ ps.length + 1 < vq.queueLen) :
    ∃ taken vq' frees' ps', addBufs bufs initRingObject vq = (taken, vq') ∧
      VqInv vq' frees' ps' hs us ∧ vq'.queueLen = vq.queueLen ∧
      ((taken = [] ∧ ps' = ps) ∨ (taken ≠ [] ∧ ∃ c, c.bufs = taken ∧ ps' = ps ++ [c])) := by
  cases bufs with
  | nil => exact ⟨[], vq, frees, ps, rfl, h, rfl, .inl ⟨rfl, rfl⟩⟩
  | cons buf bufs =>
    cases frees with
    | nil =>
      refine ⟨[], vq, [], ps, ?_, h, rfl, .inl ⟨rfl, rfl⟩⟩
      rw [addBufs, addAvailableBuf_full h]
    | cons z frees =>
      obtain ⟨hhead, hz, -, -⟩ := h.table.head_free
      have hroom : ps.length + 1 < vq.queueLen := by
        rcases hlen with hnil | hfull | hroom
        · exact absurd hnil (cons_ne_nil _ _)
        · omega
        · exact hroom
      obtain ⟨vq1, hadd, hinv, hlen1⟩ := addAvailableBuf_first h hroom buf
      obtain ⟨taken, vq', frees', c, hrest, hbufs, hinv', hlen'⟩ :=
        @addBufs_next _ _ ps hs us bufs z z [] [buf] hinv (hlen1 ▸ hz)
      refine ⟨buf :: taken, vq', frees', ps ++ [c], ?_, hinv', hlen'.trans hlen1,
        .inr ⟨cons_ne_nil _ _, c, hbufs, rfl⟩⟩
      rw [addBufs, hadd]
      dsimp only
      rw [hrest]

/-! ### Taking and returning a chain -/

theorem getAvailableBuf_eq_none_iff (h : VqInv vq frees ps hs us) :
    getAvailableBuf vq = none ↔ ps = [] := by
  have hiff := h.avail.next_eq_iff
  rw [← h.mask] at hiff
  rw [getAvailableBuf]
  split <;> simp_all

theorem getUsedBuf_eq_none_iff (h : VqInv vq frees ps hs us) : getUsedBuf vq = none ↔ us = [] := by
  have hiff := h.used.next_eq_iff
  rw [← h.mask] at hiff
  rw [getUsedBuf]
  split <;> simp_all

theorem getAvailableBuf_cons (h : VqInv vq frees (c :: ps) hs us) :
    ∃ vq', getAvailableBuf vq = some (⟨c.head vq.queueLen, c.head vq.queueLen⟩, vq') ∧
      VqInv vq' frees ps (hs ++ [c]) us ∧ vq'.queueLen = vq.queueLen := by
  obtain ⟨hcell, hpop⟩ := h.avail.pop
  have hne : ¬(vq.aRingLastSeen + 1) % vq.queueLen = vq.availIdx := fun hc =>
    absurd (h.avail.next_eq_iff.1 hc) (by simp)
  have hperm : (c :: ps ++ hs ++ us.map fst).Perm (ps ++ (hs ++ [c]) ++ us.map fst) := by
    simp only [append_assoc, cons_append, nil_append]
    have hmid : (ps ++ hs ++ c :: us.map fst).Perm
        (c :: (ps ++ hs ++ us.map fst)) := perm_middle
    simp only [append_assoc] at hmid
    exact hmid.symm
  refine ⟨{ vq with aRingLastSeen := (vq.aRingLastSeen + 1) % vq.queueLen }, ?_, ?_, rfl⟩
  · simp only [getAvailableBuf, h.mask, if_neg hne, hcell]
  · exact ⟨h.len, h.table.perm hperm, fun d hd => h.nonempty d (hperm.mem_iff.2 hd), hpop, h.used⟩

/-- Gathering goes through the whole chain. -/
theorem gatherAllAvailable_spec (hspells : Spells vq.desc vq.queueLen c)
    (hlt : ∀ i ∈ c.ixs, i < vq.queueLen) {fuel : ℕ} (hfuel : c.ixs.length < fuel) (first : ℕ) :
    gatherAllAvailable fuel ⟨c.head vq.queueLen, first⟩ vq = some c.bufs := by
  obtain ⟨ixs, bufs⟩ := c
  induction ixs generalizing bufs fuel with
  | nil =>
    have hbufs : bufs = [] := hspells.bufs.symm
    obtain ⟨fuel, rfl⟩ : ∃ k, fuel = k + 1 := ⟨fuel - 1, by dsimp only at hfuel; omega⟩
    rw [gatherAllAvailable, gatherAvailable, if_pos (by simp [Chain.head]), hbufs]
  | cons i ixs ih =>
    obtain ⟨fuel, rfl⟩ : ∃ k, fuel = k + 1 := ⟨fuel - 1, by dsimp only at hfuel; omega⟩
    have hlinks : Follows (nextOf vq.desc) vq.queueLen (vq.desc i).next ixs := hspells.links.2
    have hnext : (vq.desc i).next = ixs.headD vq.queueLen := by
      cases ixs with
      | nil => exact hlinks
      | cons j ixs => exact hlinks.1
    have hbufs : bufs = (vq.desc i).buf :: ixs.map (fun j => (vq.desc j).buf) := hspells.bufs.symm
    rw [hnext] at hlinks
    have hrest := ih (ixs.map fun j => (vq.desc j).buf) ⟨hlinks, rfl⟩
      (fun j hj => hlt j (mem_cons_of_mem _ hj))
      (Nat.lt_of_succ_lt_succ hfuel)
    have hi : ¬i ≥ vq.queueLen := Nat.not_le.2 (hlt i mem_cons_self)
    have hhead : Chain.head vq.queueLen ⟨i :: ixs, bufs⟩ = i := rfl
    rw [gatherAllAvailable, gatherAvailable, hhead, if_neg hi]
    rw [hnext, hbufs]
    exact congrArg (Option.map _) hrest

theorem addUsedBuf_spec {i : ℕ} (h : VqInv vq frees ps hs us) (hi : hs[i]? = some c)
    (hlen : us.length + 1 < vq.queueLen) (len : ℕ) :
    VqInv (addUsedBuf (c.head vq.queueLen) len vq) frees ps (hs.eraseIdx i) (us ++ [(c, len)]) := by
  have hperm : (ps ++ hs ++ us.map fst).Perm
      (ps ++ hs.eraseIdx i ++ (us ++ [(c, len)]).map fst) := by
    obtain ⟨hlt, hget⟩ := List.getElem?_eq_some_iff.1 hi
    have herase : hs.Perm (c :: hs.eraseIdx i) := by
      rw [← hget]
      exact (getElem_cons_eraseIdx_perm hlt).symm
    rw [map_append, append_assoc, append_assoc]
    refine List.Perm.append_left _ ?_
    refine (herase.append_right _).trans ?_
    rw [← append_assoc]
    exact (perm_append_singleton _ _).symm
  refine ⟨h.len, h.table.perm hperm, fun d hd => h.nonempty d (hperm.mem_iff.2 hd), h.avail, ?_⟩
  have hpush := h.used.push (by rw [length_map]; exact hlen) (entry vq.queueLen (c, len))
  rw [← h.mask] at hpush
  rw [map_append]
  exact hpush

theorem getUsedBuf_cons {u : Chain × ℕ} (h : VqInv vq frees ps hs (u :: us)) :
    getUsedBuf vq = some (⟨u.1.head vq.queueLen, u.1.head vq.queueLen⟩, u.2,
        { vq with uRingLastSeen := (vq.uRingLastSeen + 1) % vq.queueLen }) ∧
      Circular vq.queueLen vq.usedRing vq.usedIdx ((vq.uRingLastSeen + 1) % vq.queueLen)
        (us.map (entry vq.queueLen)) := by
  obtain ⟨hcell, hpop⟩ := h.used.pop
  have hne : ¬(vq.uRingLastSeen + 1) % vq.queueLen = vq.usedIdx := fun hc =>
    absurd (h.used.next_eq_iff.1 hc) (by simp)
  refine ⟨?_, hpop⟩
  simp only [getUsedBuf, h.mask, if_neg hne, hcell, entry]

/-- Gathering a used chain gives its descriptors back. -/
theorem gatherAllUsed_spec {cs : List Chain} {fuel : ℕ} (first : ℕ)
    (h : Table vq.desc vq.queueLen vq.freeDescHead frees (c :: cs))
    (hfuel : c.ixs.length < fuel) :
    ∃ desc' free' frees', gatherAllUsed fuel ⟨c.head vq.queueLen, first⟩ vq =
        some (c.bufs, { vq with desc := desc', freeDescHead := free' }) ∧
      Table desc' vq.queueLen free' frees' cs := by
  obtain ⟨ixs, bufs⟩ := c
  induction ixs generalizing vq bufs fuel frees with
  | nil =>
    have hbufs : bufs = [] := (h.spells _ mem_cons_self).bufs.symm
    obtain ⟨fuel, rfl⟩ : ∃ k, fuel = k + 1 := ⟨fuel - 1, by dsimp only at hfuel; omega⟩
    refine ⟨vq.desc, vq.freeDescHead, frees, ?_, h.drop_nil⟩
    rw [gatherAllUsed, gatherUsed, if_pos (by simp [Chain.head]), hbufs]
  | cons i ixs ih =>
    obtain ⟨fuel, rfl⟩ : ∃ k, fuel = k + 1 := ⟨fuel - 1, by dsimp only at hfuel; omega⟩
    obtain ⟨buf, rest, rfl⟩ : ∃ buf rest, bufs = buf :: rest :=
      ⟨_, _, (h.spells _ mem_cons_self).bufs.symm⟩
    obtain ⟨hbuf, hnext, hlt, htable⟩ := h.release
    obtain ⟨desc', free', frees', hrest, htable'⟩ :=
      @ih (vqPopDesc i vq).2 _ _ rest htable (Nat.lt_of_succ_lt_succ hfuel)
    refine ⟨desc', free', frees', ?_, htable'⟩
    have hhead : Chain.head vq.queueLen ⟨i :: ixs, buf :: rest⟩ = i := rfl
    rw [gatherAllUsed, gatherUsed, hhead, if_neg (Nat.not_le.2 hlt)]
    dsimp only [vqPopDesc] at hrest ⊢
    rw [hnext, hbuf]
    rw [hbuf] at hrest
    exact congrArg (Option.map _) hrest

/-! ### Runs -/

/-- The chains are in the places that the history of the run says. -/
structure Inv (s : Run) (frees : List ℕ) (ps hs : List Chain) (us : List (Chain × ℕ)) : Prop where
  vq : VqInv s.vq frees ps hs us
  added : s.added = s.obtained ++ ps.map Chain.bufs
  held : s.held = hs.map fun c => (c.head s.vq.queueLen, c.bufs)
  used : s.used = s.collected ++ us.map fun u => (entry s.vq.queueLen u, u.1.bufs)

/-- The invariant, wherever the chains are. -/
def Run.Sound (s : Run) : Prop := ∃ frees ps hs us, Inv s frees ps hs us

variable {s : Run}

namespace Inv

variable (h : Inv s frees ps hs us)

include h

theorem added_length : s.added.length = s.obtained.length + ps.length := by
  rw [h.added, length_append, length_map]

theorem used_length : s.used.length = s.collected.length + us.length := by
  rw [h.used, length_append, length_map]

theorem kept :
    Kept s where
  obtained := ⟨_, h.added.symm⟩
  collected := ⟨_, h.used.symm⟩
  allObtained := by
    intro hnone
    rw [h.added, (getAvailableBuf_eq_none_iff h.vq).1 hnone]
    exact (append_nil _).symm
  allCollected := by
    intro hnone
    rw [h.used, (getUsedBuf_eq_none_iff h.vq).1 hnone]
    exact (append_nil _).symm

theorem addChain (bufs : List Buf) (hroom : Roomy s (.addChain bufs)) :
    ∃ s', step s (.addChain bufs) = some s' ∧ s'.Sound := by
  have hadded := h.added_length
  obtain ⟨taken, vq', frees', ps', hadd, hinv, hlen, hcases⟩ :=
    addBufs_spec bufs h.vq (hroom.imp_right (Or.imp_right fun hlt => by omega))
  refine ⟨_, rfl, frees', ps', hs, us, ?_⟩
  rw [hadd]
  refine ⟨hinv, ?_, hlen ▸ h.held, hlen ▸ h.used⟩
  rcases hcases with ⟨rfl, rfl⟩ | ⟨hne, c, rfl, rfl⟩
  · exact h.added
  · rw [if_neg hne, h.added, map_append, append_assoc]
    rfl

theorem takeChain : ∃ s', step s .takeChain = some s' ∧ s'.Sound := by
  cases ps with
  | nil =>
    refine ⟨s, ?_, _, _, _, _, h⟩
    rw [step, (getAvailableBuf_eq_none_iff h.vq).2 rfl]
  | cons c ps =>
    obtain ⟨vq', hget, hinv, hlen⟩ := getAvailableBuf_cons h.vq
    have hmem : c ∈ ps ++ (hs ++ [c]) ++ us.map fst := by simp
    have hlt : ∀ i ∈ c.ixs, i < vq'.queueLen := fun i hi =>
      hinv.table.lt i (mem_append_right _ (mem_flatMap_ixs hmem hi))
    have hgather := gatherAllAvailable_spec (hinv.table.spells c hmem) hlt
      (Nat.lt_succ_of_le (hinv.length_le hmem)) (c.head vq'.queueLen)
    rw [← hlen] at hget
    have hstep : step s .takeChain = some { s with
        vq := vq'
        obtained := s.obtained ++ [c.bufs]
        held := s.held ++ [(c.head vq'.queueLen, c.bufs)] } := by
      rw [step, hget]
      exact congrArg (Option.map _) hgather
    refine ⟨_, hstep, frees, ps, hs ++ [c], us, hinv, ?_, ?_, hlen ▸ h.used⟩
    · rw [h.added, append_assoc]
      rfl
    · rw [h.held, map_append, hlen]
      rfl

theorem returnChain (i len : ℕ) (hroom : Roomy s (.returnChain i len)) :
    ∃ s', step s (.returnChain i len) = some s' ∧ s'.Sound := by
  have hget : s.held[i]? = hs[i]?.map fun c => (c.head s.vq.queueLen, c.bufs) := by
    rw [h.held, List.getElem?_map]
  cases hi : hs[i]? with
  | none =>
    refine ⟨s, ?_, _, _, _, _, h⟩
    rw [step, hget, hi]
    rfl
  | some c =>
    rw [hi] at hget
    have hlength : us.length + 1 < s.vq.queueLen := by
      have hused := h.used_length
      have hheld := (List.getElem?_eq_some_iff.1 hget).1
      rcases hroom with hge | hlt <;> omega
    have hstep : step s (.returnChain i len) = some { s with
        vq := addUsedBuf (c.head s.vq.queueLen) len s.vq
        held := s.held.eraseIdx i
        used := s.used ++ [(⟨c.head s.vq.queueLen, len⟩, c.bufs)] } := by
      rw [step, hget]
      rfl
    refine ⟨_, hstep, frees, ps, hs.eraseIdx i, us ++ [(c, len)],
      addUsedBuf_spec h.vq hi hlength len, h.added, ?_, ?_⟩
    · dsimp only [addUsedBuf]
      rw [h.held, eraseIdx_map]
    · rw [h.used, map_append, append_assoc]
      rfl

theorem collectChain : ∃ s', step s .collectChain = some s' ∧ s'.Sound := by
  cases us with
  | nil =>
    refine ⟨s, ?_, _, _, _, _, h⟩
    rw [step, (getUsedBuf_eq_none_iff h.vq).2 rfl]
  | cons u us =>
    obtain ⟨hget, hpop⟩ := getUsedBuf_cons h.vq
    have hperm : (ps ++ hs ++ (u :: us).map fst).Perm
        (u.1 :: (ps ++ hs ++ us.map fst)) := perm_middle
    have hmem : u.1 ∈ ps ++ hs ++ (u :: us).map fst := by simp
    obtain ⟨desc', free', frees', hgather, htable⟩ := @gatherAllUsed_spec
      { s.vq with uRingLastSeen := (s.vq.uRingLastSeen + 1) % s.vq.queueLen } frees u.1 _ _
      (u.1.head s.vq.queueLen) (h.vq.table.perm hperm)
      (Nat.lt_succ_of_le (h.vq.length_le hmem))
    have hstep : step s .collectChain = some { s with
        vq := { s.vq with
          uRingLastSeen := (s.vq.uRingLastSeen + 1) % s.vq.queueLen
          desc := desc'
          freeDescHead := free' }
        collected := s.collected ++ [(⟨u.1.head s.vq.queueLen, u.2⟩, u.1.bufs)] } := by
      rw [step, hget]
      exact congrArg (Option.map _) hgather
    refine ⟨_, hstep, frees', ps, hs, us,
      ⟨h.vq.len, htable, ?_, h.vq.avail, hpop⟩, h.added, h.held, ?_⟩
    · exact fun c hc => h.vq.nonempty c (hperm.mem_iff.2 (mem_cons_of_mem _ hc))
    · rw [h.used, append_assoc]
      rfl

/-- Every operation that finds room ends and keeps the invariant. -/
theorem step {op : Op} (hroom : Roomy s op) : ∃ s', Virtqueue.step s op = some s' ∧ s'.Sound := by
  cases op with
  | addChain bufs => exact h.addChain bufs hroom
  | takeChain => exact h.takeChain
  | returnChain i len => exact h.returnChain i len hroom
  | collectChain => exact h.collectChain

end Inv

/-- The invariant holds in every run whose operations find room. -/
theorem Reaches.inv {k : ℕ} (hk : 1 ≤ k) (hk' : k ≤ 15) (h : Reaches Roomy (2 ^ k) s) :
    s.Sound := by
  induction h with
  | start => exact ⟨_, [], [], [], VqInv.init hk hk', rfl, rfl, rfl⟩
  | step op _ hroom hstep ih =>
    obtain ⟨frees, ps, hs, us, hinv⟩ := ih
    obtain ⟨s', hstep', hsound⟩ := hinv.step hroom
    cases hstep.symm.trans hstep'
    exact hsound

/-- **Main result.** As long as an operation leaves a place free in the ring that it writes, every
operation ends, and both rings are queues that lose and repeat nothing. -/
theorem chains_kept {k : ℕ} (hk : 1 ≤ k) (hk' : k ≤ 15) (h : Reaches Roomy (2 ^ k) s) :
    Kept s ∧ ∀ op, Roomy s op → ∃ s', step s op = some s' := by
  obtain ⟨frees, ps, hs, us, hinv⟩ := h.inv hk hk'
  refine ⟨hinv.kept, fun op hroom => ?_⟩
  obtain ⟨s', hstep, -⟩ := hinv.step hroom
  exact ⟨s', hstep⟩

/-- A chain with one buffer. -/
def oneBuf : List Buf := [⟨4096, 64, .rw⟩]

/-- With two descriptors, a chain that goes to the device and back. -/
theorem oneChain_kept : ∃ s, Reaches Roomy (2 ^ 1) s ∧ s.collected = s.used ∧
    s.used = [(⟨0, 64⟩, oneBuf)] ∧ Kept s := by
  have h0 : Reaches Roomy (2 ^ 1) (start (2 ^ 1)) := .start
  have h1 := h0.step (.addChain oneBuf) (by decide) rfl
  have h2 := h1.step .takeChain (by decide) rfl
  have h3 := h2.step (.returnChain 0 64) (by decide) rfl
  have h4 := h3.step .collectChain (by decide) rfl
  exact ⟨_, h4, rfl, rfl, (chains_kept (by decide) (by decide) h4).1⟩

/-- With two descriptors, two chains make the device see an empty ring. -/
theorem fullRing_lost : ∃ s, Reaches (fun _ _ => True) (2 ^ 1) s ∧ s.added = [oneBuf, oneBuf] ∧
    s.obtained = [] ∧ getAvailableBuf s.vq = none := by
  have h0 : Reaches (fun _ _ => True) (2 ^ 1) (start (2 ^ 1)) := .start
  have h1 := h0.step (.addChain oneBuf) trivial rfl
  have h2 := h1.step (.addChain oneBuf) trivial rfl
  exact ⟨_, h2, rfl, rfl, rfl⟩

end SeL4Kernel.Virtqueue
