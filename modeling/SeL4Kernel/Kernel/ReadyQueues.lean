import SeL4Kernel.Kernel.Schedule
import SeL4Kernel.Lib.Bitmap

/-!
# The ready queues and their bitmaps

Each domain has a two-level bitmap of the priorities with a ready thread. The
invariant `BitmapInv` says that the bitmap of every domain represents exactly the
priorities whose queue is not empty.

* `BitmapInv.schedEnqueue`: a thread that is put into its queue keeps it.
* `getHighestPrio_eq`: under it, `getHighestPrio` is the highest priority in use.
* `schedDequeue_schedEnqueue`: a thread that is put into a queue and taken out again
  leaves queues and bitmaps as they were.
-/

namespace SeL4Kernel

open Function

namespace ReadyQueues

variable {cfg : Config} {q : ReadyQueues} {tcb dom prio : Nat}

/-- The bitmap of a domain; the rows are stored from the end. -/
def bitmap (cfg : Config) (dom : Nat) (q : ReadyQueues) : Bitmap where
  summary := q.ksReadyQueuesL1Bitmap dom
  row i := if i < l2BitmapSize cfg then q.ksReadyQueuesL2Bitmap dom (invertL1index cfg i) else 0

/-- A thread of this domain and priority is ready. -/
def ReadyAt (cfg : Config) (q : ReadyQueues) (dom prio : Nat) : Prop :=
  prio < cfg.numPriorities ∧ q.ksReadyQueues (readyQueuesIndex cfg dom prio) ≠ []

/-- The bitmaps tell which queues are not empty. -/
def BitmapInv (cfg : Config) (q : ReadyQueues) : Prop :=
  ∀ dom < cfg.numDomains, (q.bitmap cfg dom).Holds (q.ReadyAt cfg dom)

/-! ### Indices -/

variable (hd : dom < cfg.numDomains) (hp : prio < cfg.numPriorities) {dom' prio' : Nat}

include hp in
theorem prio_bounds : prio < 64 * 64 ∧ prio / 64 < l2BitmapSize cfg := by
  have hle := cfg.numPriorities_le
  have hsize : l2BitmapSize cfg = (cfg.numPriorities + 64 - 1) / 64 := rfl
  omega

theorem invertL1index_inj {i j : Nat} (hi : i < l2BitmapSize cfg) (hj : j < l2BitmapSize cfg)
    (h : invertL1index cfg i = invertL1index cfg j) : i = j := by
  unfold invertL1index at h
  omega

include hd in
theorem readyQueuesIndex_inj (hd' : dom' < cfg.numDomains) (hp : prio < cfg.numPriorities)
    (hp' : prio' < cfg.numPriorities)
    (h : readyQueuesIndex cfg dom prio = readyQueuesIndex cfg dom' prio') :
    dom = dom' ∧ prio = prio' := by
  unfold readyQueuesIndex at h
  split at h
  · have hprio := congrArg (· % cfg.numPriorities) h
    have hdom := congrArg (· / cfg.numPriorities) h
    have hmod : ∀ {d p : Nat}, p < cfg.numPriorities →
        (d * cfg.numPriorities + p) % cfg.numPriorities = p := by
      intro d p hlt
      rw [Nat.mul_comm, Nat.mul_add_mod, Nat.mod_eq_of_lt hlt]
    have hdiv : ∀ {d p : Nat}, p < cfg.numPriorities →
        (d * cfg.numPriorities + p) / cfg.numPriorities = d := by
      intro d p hlt
      rw [Nat.mul_comm, Nat.mul_add_div (by omega), Nat.div_eq_of_lt hlt, Nat.add_zero]
    simp only [hmod hp, hmod hp'] at hprio
    simp only [hdiv hp, hdiv hp'] at hdom
    exact ⟨hdom, hprio⟩
  · omega

/-! ### The bitmap functions -/

/-- A write of the row of a priority and of the summary. -/
def writeRow (cfg : Config) (dom prio : Nat) (b : Bitmap) (q : ReadyQueues) : ReadyQueues :=
  { q with
    ksReadyQueuesL1Bitmap := update q.ksReadyQueuesL1Bitmap dom b.summary
    ksReadyQueuesL2Bitmap := update q.ksReadyQueuesL2Bitmap dom
      (update (q.ksReadyQueuesL2Bitmap dom) (invertL1index cfg (prio / 64)) (b.row (prio / 64))) }

include hp

theorem row_bitmap :
    (q.bitmap cfg dom).row (prio / 64) =
    q.ksReadyQueuesL2Bitmap dom (invertL1index cfg (prio / 64)) := if_pos (prio_bounds hp).2

theorem addToBitmap_eq :
    q.addToBitmap cfg dom prio = q.writeRow cfg dom prio ((q.bitmap cfg dom).insert prio) := by
  have hrow : ((q.bitmap cfg dom).insert prio).row (prio / 64) =
      (q.bitmap cfg dom).row (prio / 64) ||| 1#64 <<< (prio % 64) := update_self _ _ _
  rw [writeRow, hrow, row_bitmap hp]
  rfl

theorem removeFromBitmap_eq :
    q.removeFromBitmap cfg dom prio =
      q.writeRow cfg dom prio ((q.bitmap cfg dom).remove prio) := by
  have hrow : ((q.bitmap cfg dom).remove prio).row (prio / 64) =
      (q.bitmap cfg dom).row (prio / 64) &&& ~~~(1#64 <<< (prio % 64)) := update_self _ _ _
  have hsum : ((q.bitmap cfg dom).remove prio).summary =
      if (q.bitmap cfg dom).row (prio / 64) &&& ~~~(1#64 <<< (prio % 64)) = 0 then
        q.ksReadyQueuesL1Bitmap dom &&& ~~~(1#64 <<< (prio / 64))
      else q.ksReadyQueuesL1Bitmap dom := rfl
  rw [writeRow, hsum, hrow, row_bitmap hp]
  unfold removeFromBitmap
  dsimp only
  split
  next hz =>
    rw [if_pos (by exact hz)]
    rfl
  next hz =>
    rw [if_neg (by exact hz), update_eq_self]
    rfl

/-- How such a write looks in the bitmap. -/
theorem bitmap_writeRow {b : Bitmap}
    (hrows : ∀ i, i ≠ prio / 64 → b.row i = (q.bitmap cfg dom).row i) :
    (q.writeRow cfg dom prio b).bitmap cfg dom = b := by
  apply Bitmap.ext
  · exact update_self _ _ _
  funext i
  show (if i < l2BitmapSize cfg then update q.ksReadyQueuesL2Bitmap dom _ dom
    (invertL1index cfg i) else _) = _
  rw [update_self]
  by_cases hi : i = prio / 64
  · subst hi
    rw [if_pos (prio_bounds hp).2, update_self]
  rw [hrows i hi]
  show _ = if i < l2BitmapSize cfg then _ else _
  by_cases hlt : i < l2BitmapSize cfg
  · rw [if_pos hlt, if_pos hlt, update_of_ne]
    exact fun he => hi (invertL1index_inj hlt (prio_bounds hp).2 he)
  · rw [if_neg hlt, if_neg hlt]

theorem bitmap_addToBitmap :
    (q.addToBitmap cfg dom prio).bitmap cfg dom = (q.bitmap cfg dom).insert prio := by
  rw [addToBitmap_eq hp]
  exact bitmap_writeRow hp fun i hi => update_of_ne hi _ _

omit hp

theorem bitmap_addToBitmap_of_ne (hd : dom' ≠ dom) :
    (q.addToBitmap cfg dom prio).bitmap cfg dom' = q.bitmap cfg dom' := by
  simp [addToBitmap, bitmap, hd]

theorem removeFromBitmap_addToBitmap {S : Nat → Prop} (h : (q.bitmap cfg dom).Holds S)
    (hp : prio < cfg.numPriorities) (hS : ¬S prio) :
    (q.addToBitmap cfg dom prio).removeFromBitmap cfg dom prio = q := by
  rw [removeFromBitmap_eq hp, bitmap_addToBitmap hp,
    h.remove_insert (prio_bounds hp).1 hS, addToBitmap_eq hp, writeRow, row_bitmap hp]
  simp only [writeRow, update_idem, update_self]
  rw [show (q.bitmap cfg dom).summary = q.ksReadyQueuesL1Bitmap dom from rfl,
    update_eq_self, update_eq_self, update_eq_self]

/-! ### The queue functions keep the bitmaps in step -/

section Preservation

variable {queue : List Ptr} {queued : Bool}

theorem bitmap_putQueue :
    (q.putQueue cfg tcb dom prio queue queued).bitmap cfg dom' = q.bitmap cfg dom' := rfl

include hd hp in
theorem readyAt_putQueue (hd' : dom' < cfg.numDomains) :
    (q.putQueue cfg tcb dom prio queue queued).ReadyAt cfg dom' prio' ↔
      if dom' = dom ∧ prio' = prio then queue ≠ [] else q.ReadyAt cfg dom' prio' := by
  unfold ReadyAt putQueue
  dsimp only
  by_cases hsame : dom' = dom ∧ prio' = prio
  · obtain ⟨rfl, rfl⟩ := hsame
    simp [hp]
  rw [if_neg hsame]
  by_cases hp' : prio' < cfg.numPriorities
  · have hne : readyQueuesIndex cfg dom' prio' ≠ readyQueuesIndex cfg dom prio :=
      fun he => hsame (readyQueuesIndex_inj hd' hd hp' hp he)
    rw [update_of_ne hne]
  · simp [hp']

/-- A queue that gets a thread. -/
theorem BitmapInv.fill (h : BitmapInv cfg q) (hd : dom < cfg.numDomains)
    (hp : prio < cfg.numPriorities) (hq : queue ≠ []) :
    BitmapInv cfg
      ((if q.ksReadyQueues (readyQueuesIndex cfg dom prio) = [] then q.addToBitmap cfg dom prio
        else q).putQueue cfg tcb dom prio queue queued) := by
  intro dom' hd'
  have hready : ∀ (q' : ReadyQueues) (p : Nat), q'.ksReadyQueues = q.ksReadyQueues →
      ((q'.putQueue cfg tcb dom prio queue queued).ReadyAt cfg dom' p ↔
        (dom' = dom ∧ p = prio) ∨ q.ReadyAt cfg dom' p) := by
    intro q' p hq'
    rw [readyAt_putQueue hd hp hd', show q'.ReadyAt cfg dom' p ↔ q.ReadyAt cfg dom' p by
      unfold ReadyAt; rw [hq']]
    by_cases hsame : dom' = dom ∧ p = prio
    · simp [hsame, hq]
    · simp [hsame]
  split
  · rw [bitmap_putQueue]
    by_cases hdom : dom' = dom
    · subst hdom
      rw [bitmap_addToBitmap hp]
      have hins := (h dom' hd').insert (prio_bounds hp).1
      refine ⟨fun p => (hins.mem p).trans ?_, hins.top⟩
      rw [hready (q.addToBitmap cfg dom' prio) p rfl]
      simp
    · rw [bitmap_addToBitmap_of_ne hdom]
      refine ⟨fun p => ((h dom' hd').mem p).trans ?_, (h dom' hd').top⟩
      rw [hready (q.addToBitmap cfg dom prio) p rfl]
      simp [hdom]
  next hempty =>
    refine ⟨fun p => ((h dom' hd').mem p).trans ?_, (h dom' hd').top⟩
    rw [hready q p rfl]
    constructor
    · exact Or.inr
    · rintro (⟨rfl, rfl⟩ | hr)
      · exact ⟨hp, hempty⟩
      · exact hr

end Preservation

variable (h : BitmapInv cfg q)

include h

theorem BitmapInv.schedEnqueue (hd : dom < cfg.numDomains) (hp : prio < cfg.numPriorities) :
    BitmapInv cfg (q.schedEnqueue cfg tcb dom prio) := by
  unfold ReadyQueues.schedEnqueue
  split
  · exact h
  · exact h.fill hd hp (List.cons_ne_nil _ _)

/-! ### The highest priority -/

theorem getHighestPrio_eq_highest (hd : dom < cfg.numDomains)
    (hne : q.ksReadyQueuesL1Bitmap dom ≠ 0) :
    q.getHighestPrio cfg dom = (q.bitmap cfg dom).highest := by
  have hrow := ((h dom hd).top _).1 (getLsbD_highestBit hne)
  have hlt : highestBit (q.ksReadyQueuesL1Bitmap dom) < l2BitmapSize cfg := by
    by_contra hge
    exact hrow (if_neg hge)
  have hrow_eq : (q.bitmap cfg dom).row (highestBit (q.ksReadyQueuesL1Bitmap dom)) =
      q.ksReadyQueuesL2Bitmap dom
        (invertL1index cfg (highestBit (q.ksReadyQueuesL1Bitmap dom))) := if_pos hlt
  have hlow : highestBit ((q.bitmap cfg dom).row (highestBit (q.ksReadyQueuesL1Bitmap dom))) <
      2 ^ 6 := by
    unfold highestBit
    omega
  show highestBit (q.ksReadyQueuesL1Bitmap dom) * 2 ^ 6 ||| highestBit (q.ksReadyQueuesL2Bitmap dom
    (invertL1index cfg (highestBit (q.ksReadyQueuesL1Bitmap dom)))) = _
  rw [← hrow_eq, Nat.mul_comm, ← Nat.two_pow_add_eq_or_of_lt hlow]
  rfl

/-- **The highest priority in use.** -/
theorem getHighestPrio_eq (hd : dom < cfg.numDomains) (hp : q.ReadyAt cfg dom prio)
    (hle : ∀ p, q.ReadyAt cfg dom p → p ≤ prio) :
    q.ksReadyQueuesL1Bitmap dom ≠ 0 ∧ q.getHighestPrio cfg dom = prio := by
  have hne : q.ksReadyQueuesL1Bitmap dom ≠ 0 := fun hz => (h dom hd).summary_eq_zero.1 hz prio hp
  exact ⟨hne, (getHighestPrio_eq_highest h hd hne).trans ((h dom hd).highest_eq hp hle)⟩

/-- `isHighestPrio`: no ready thread of the domain has a higher priority. -/
theorem isHighestPrio_iff (hd : dom < cfg.numDomains) :
    q.isHighestPrio cfg dom prio = true ↔ ∀ p, q.ReadyAt cfg dom p → p ≤ prio := by
  unfold isHighestPrio
  rw [Bool.or_eq_true, beq_iff_eq, decide_eq_true_eq]
  by_cases hz : q.ksReadyQueuesL1Bitmap dom = 0
  · have hnone := (h dom hd).summary_eq_zero.1 hz
    exact ⟨fun _ p hp => absurd hp (hnone p), fun _ => Or.inl hz⟩
  have hspec := (h dom hd).highest_spec hz
  rw [getHighestPrio_eq_highest h hd hz]
  constructor
  · rintro (hz' | hle) p hp
    · exact absurd hz' hz
    · exact Nat.le_trans (hspec.2 p hp) hle
  · intro hall
    exact Or.inr (hall _ hspec.1)

omit h

/-! ### In and out again -/

/-- The queue of a thread that has just been put into it. -/
theorem ksReadyQueues_schedEnqueue (hq : q.tcbQueued tcb = false) :
    (q.schedEnqueue cfg tcb dom prio).ksReadyQueues (readyQueuesIndex cfg dom prio) =
      tcb :: q.ksReadyQueues (readyQueuesIndex cfg dom prio) := by
  unfold schedEnqueue
  rw [if_neg (by rw [hq]; decide)]
  exact update_self _ _ _

include hd hp in
theorem readyAt_schedEnqueue {p : Nat} (h : (q.schedEnqueue cfg tcb dom prio).ReadyAt cfg dom p) :
    p = prio ∨ q.ReadyAt cfg dom p := by
  unfold schedEnqueue at h
  split at h
  · exact Or.inr h
  rw [readyAt_putQueue hd hp hd] at h
  by_cases hsame : p = prio
  · exact Or.inl hsame
  · rw [if_neg (fun hc => hsame hc.2)] at h
    split at h <;> exact Or.inr h

/-- **In and out.** A thread that is put into its queue and taken out again leaves
everything as it was. -/
theorem schedDequeue_schedEnqueue (h : BitmapInv cfg q) (hd : dom < cfg.numDomains)
    (hp : prio < cfg.numPriorities) (hq : q.tcbQueued tcb = false) :
    (q.schedEnqueue cfg tcb dom prio).schedDequeue cfg tcb dom prio = q := by
  unfold schedEnqueue
  rw [if_neg (by rw [hq]; decide)]
  unfold schedDequeue
  dsimp only
  have hqueued : ((if q.ksReadyQueues (readyQueuesIndex cfg dom prio) = [] then
      q.addToBitmap cfg dom prio else q).putQueue cfg tcb dom prio
      (tcb :: q.ksReadyQueues (readyQueuesIndex cfg dom prio)) true).tcbQueued tcb = true :=
    update_self _ _ _
  have hqueue : ((if q.ksReadyQueues (readyQueuesIndex cfg dom prio) = [] then
      q.addToBitmap cfg dom prio else q).putQueue cfg tcb dom prio
      (tcb :: q.ksReadyQueues (readyQueuesIndex cfg dom prio)) true).ksReadyQueues
        (readyQueuesIndex cfg dom prio) =
      tcb :: q.ksReadyQueues (readyQueuesIndex cfg dom prio) := update_self _ _ _
  rw [if_pos hqueued, hqueue, List.erase_cons_head]
  have hrestore : ∀ q' : ReadyQueues, q'.ksReadyQueues = q.ksReadyQueues →
      q'.tcbQueued = q.tcbQueued →
      (q'.putQueue cfg tcb dom prio (tcb :: q.ksReadyQueues (readyQueuesIndex cfg dom prio))
        true).putQueue cfg tcb dom prio (q.ksReadyQueues (readyQueuesIndex cfg dom prio)) false =
        q' := by
    intro q' hqs hf
    unfold putQueue
    rw [update_idem, update_idem, ← hq, ← hf, ← hqs, update_eq_self, update_eq_self]
  by_cases hempty : q.ksReadyQueues (readyQueuesIndex cfg dom prio) = []
  · have hcomm : ∀ (q' : ReadyQueues) (queue : List Ptr) (queued : Bool),
        (q'.putQueue cfg tcb dom prio queue queued).removeFromBitmap cfg dom prio =
          (q'.removeFromBitmap cfg dom prio).putQueue cfg tcb dom prio queue queued := by
      intro q' queue queued
      rw [removeFromBitmap_eq hp, removeFromBitmap_eq hp]
      rfl
    have hrem := removeFromBitmap_addToBitmap (h dom hd) hp (fun hr => hr.2 hempty)
    rw [if_pos hempty, if_pos hempty, hcomm, hrem]
    exact hrestore q rfl rfl
  · rw [if_neg hempty, if_neg hempty]
    exact hrestore q rfl rfl

end ReadyQueues

end SeL4Kernel
