import SeL4Kernel.Platsupport.Irq

/-!
# The two tables describe one binding

A binding `β` says for an interrupt with which notification it is paired, and with which bit of the
badge. `Describes c β` says that both tables have this binding. Every operation either leaves the
binding as it is, adds a pair, or takes pairs away. The table of bound interrupts is no witness of
it: a bit that is not bound has zero there, or `UNPAIRED_ID` once it was bound.
-/

namespace SeL4Kernel.Platsupport

open Function IrqCookie BitVec

/-- An identifier as it is in a table. -/
def code : Option ℕ → ℤ
  | none => unpairedId
  | some n => n

/-- Both tables have the binding, which is one-to-one and within the bounds of the tables. -/
structure Describes (c : IrqCookie) (β : ℕ → Option (ℕ × ℕ)) : Prop where
  bounds : ∀ {irq ntfn b}, β irq = some (ntfn, b) →
    irq < c.maxIrqIds ∧ ntfn < c.maxNtfnIds ∧ b < maxInterruptsToNotifications
  injective : ∀ {irq irq' p}, β irq = some p → β irq' = some p → irq = irq'
  pairedNtfn : ∀ irq, irq < c.maxIrqIds →
    (c.irqTable irq).pairedNtfn = code ((β irq).map Prod.fst)
  badgeIndex : ∀ irq, irq < c.maxIrqIds →
    (c.irqTable irq).allocatedBadgeIndex = code ((β irq).map Prod.snd)
  status : ∀ ntfn, ntfn < c.maxNtfnIds → ∀ b,
    (c.ntfnTable ntfn).statusBitfield.getLsbD b = true ↔ ∃ irq, β irq = some (ntfn, b)
  boundIrqs : ∀ {irq ntfn b}, β irq = some (ntfn, b) → (c.ntfnTable ntfn).boundIrqs b = irq
  unbound : ∀ ntfn, ntfn < c.maxNtfnIds → ∀ b,
    (c.ntfnTable ntfn).statusBitfield.getLsbD b = false →
      (c.ntfnTable ntfn).boundIrqs b = 0 ∨ (c.ntfnTable ntfn).boundIrqs b = unpairedId
  numIrqsBound : ∀ ntfn, ntfn < c.maxNtfnIds →
    (c.ntfnTable ntfn).numIrqsBound = (setBits (c.ntfnTable ntfn).statusBitfield).length

/-- The entry of an interrupt with its pair. -/
structure IrqOk (e : IrqEntry) (pair : Option (ℕ × ℕ)) : Prop where
  pairedNtfn : e.pairedNtfn = code (pair.map Prod.fst)
  badgeIndex : e.allocatedBadgeIndex = code (pair.map Prod.snd)
  allocated : pair ≠ none → e.allocated = true
  callback : e.callback.isSome = e.allocated

/-- The entry of a notification with the interrupts of its bits. -/
structure NtfnOk (e : NtfnEntry) (irqOf : ℕ → ℕ → Prop) : Prop where
  lt : ∀ {b irq}, irqOf b irq → b < maxInterruptsToNotifications
  status : ∀ b, e.statusBitfield.getLsbD b = true ↔ ∃ irq, irqOf b irq
  boundIrqs : ∀ {b irq}, irqOf b irq → e.boundIrqs b = irq
  unbound : ∀ b, e.statusBitfield.getLsbD b = false → e.boundIrqs b = 0 ∨ e.boundIrqs b = unpairedId
  numIrqsBound : e.numIrqsBound = (setBits e.statusBitfield).length
  usable : ∀ {b irq}, irqOf b irq → e.usableMask.getLsbD b = true
  allocated : ∀ {b irq}, irqOf b irq → e.allocated = true

/-- The binding, and which entries are in use. -/
structure Inv (c : IrqCookie) (β : ℕ → Option (ℕ × ℕ)) : Prop where
  bounds : ∀ {irq ntfn b}, β irq = some (ntfn, b) → irq < c.maxIrqIds ∧ ntfn < c.maxNtfnIds
  injective : ∀ {irq irq' p}, β irq = some p → β irq' = some p → irq = irq'
  irq : ∀ irq, irq < c.maxIrqIds → IrqOk (c.irqTable irq) (β irq)
  ntfn : ∀ ntfn, ntfn < c.maxNtfnIds →
    NtfnOk (c.ntfnTable ntfn) fun b irq => β irq = some (ntfn, b)
  irqIds : InUse c.maxIrqIds c.allocatedIrqBitfields c.numRegisteredIrqs
    fun irq => (c.irqTable irq).allocated
  ntfnIds : InUse c.maxNtfnIds c.allocatedNtfnBitfields c.numAllocatedNtfns
    fun ntfn => (c.ntfnTable ntfn).allocated
  irqWords : c.numIrqBitfields = numBitfields c.maxIrqIds
  ntfnWords : c.numNtfnBitfields = numBitfields c.maxNtfnIds
  mini : c.ifaceType = .mini → 0 < c.maxNtfnIds ∧ (c.ntfnTable 0).allocated = true

variable {c : IrqCookie} {β : ℕ → Option (ℕ × ℕ)} {irq ntfn : ℕ}

theorem Inv.describes (h : Inv c β) : Describes c β where
  bounds := by
    intro irq ntfn b hβ
    obtain ⟨hirq, hntfn⟩ := h.bounds hβ
    exact ⟨hirq, hntfn, (h.ntfn ntfn hntfn).lt hβ⟩
  injective := h.injective
  pairedNtfn := fun irq hirq => (h.irq irq hirq).pairedNtfn
  badgeIndex := fun irq hirq => (h.irq irq hirq).badgeIndex
  status := fun ntfn hntfn => (h.ntfn ntfn hntfn).status
  boundIrqs := fun hβ => (h.ntfn _ (h.bounds hβ).2).boundIrqs hβ
  unbound := fun ntfn hntfn => (h.ntfn ntfn hntfn).unbound
  numIrqsBound := fun ntfn hntfn => (h.ntfn ntfn hntfn).numIrqsBound

/-! ### Identifiers -/

theorem irqIndex_ofNat (h : irq < c.maxIrqIds) : c.irqIndex irq = .ok irq := by
  rw [irqIndex, if_pos ⟨by omega, by omega⟩]
  rfl

theorem ntfnIndex_ofNat (h : ntfn < c.maxNtfnIds) : c.ntfnIndex ntfn = .ok ntfn := by
  rw [ntfnIndex, if_pos ⟨by omega, by omega⟩]
  rfl

/-- A valid identifier is a place of the table. -/
theorem validIrq_cases {id : ℤ} (h : c.ValidIrq id) : ∃ irq : ℕ, id = irq ∧ irq < c.maxIrqIds :=
  ⟨id.toNat, by have := h.1; omega, by have := h.1; have := h.2; omega⟩

theorem validNtfn_cases {id : ℤ} (h : c.ValidNtfn id) :
    ∃ ntfn : ℕ, id = ntfn ∧ ntfn < c.maxNtfnIds :=
  ⟨id.toNat, by have := h.1; omega, by have := h.1; have := h.2; omega⟩

theorem lt_numBitfields {f max : ℕ} (h : f < max) : f / 64 + 1 < numBitfields max := by
  unfold numBitfields
  omega

/-- The search finds the lowest identifier that is free, if it does not come to the word in which
bits are hidden. -/
theorem findFreeId_eq {num last maxIds left i f : ℕ} {words : ℕ → BitVec 64}
    (hset : ∀ j, j < f → (words (j / 64)).getLsbD (j % 64) = true)
    (hclear : (words (f / 64)).getLsbD (f % 64) = false) (hlast : f / 64 + 1 < last)
    (hi : i ≤ f / 64) (hleft : f / 64 < i + left) :
    findFreeId num last maxIds words left i = .ok f := by
  induction left generalizing i with
  | zero => omega
  | succ left ih =>
    rw [findFreeId, if_neg (by omega)]
    change (if ~~~(words i) ≠ 0 then _ else _) = _
    rcases Nat.eq_or_lt_of_le hi with rfl | hlt
    · have hmod : f % 64 < 64 := Nat.mod_lt _ (by decide)
      have hbit : (~~~(words (f / 64))).getLsbD (f % 64) = true := by
        rw [getLsbD_not, hclear]
        simp [hmod]
      have hne : ~~~(words (f / 64)) ≠ 0 := by
        intro hzero
        rw [hzero] at hbit
        simp at hbit
      have hlow : lowestBit (~~~(words (f / 64))) = f % 64 := by
        refine lowestBit_eq hbit fun j hj => ?_
        have hj' := hset (64 * (f / 64) + j) (by omega)
        rw [show (64 * (f / 64) + j) / 64 = f / 64 by omega,
          show (64 * (f / 64) + j) % 64 = j by omega] at hj'
        rw [getLsbD_not, hj']
        simp
      have hid : lowestBit (~~~(words (f / 64))) + f / 64 * 64 = f := by omega
      rw [if_pos hne, hid]
    · have hfull : ~~~(words i) = 0 := by
        refine eq_of_getLsbD_eq fun j hj => ?_
        have hj' := hset (64 * i + j) (by omega)
        rw [show (64 * i + j) / 64 = i by omega, show (64 * i + j) % 64 = j by omega] at hj'
        rw [getLsbD_not, hj']
        simp
      rw [if_neg (by rw [hfull]; simp)]
      exact ih hlt (by omega)

/-- There is room in the table of interrupts, and the search finds it. -/
theorem Inv.findFreeIrqId (h : Inv c β) (hroom : c.numRegisteredIrqs < c.maxIrqIds) :
    ∃ irq : ℕ, Platsupport.findFreeIrqId c = .ok irq ∧ irq < c.maxIrqIds ∧
      (c.irqTable irq).allocated = false := by
  obtain ⟨f, hmax, -, hfree, hmin⟩ := h.irqIds.exists_free hroom
  refine ⟨f, ?_, hmax, hfree⟩
  have hlast := lt_numBitfields hmax
  rw [← h.irqWords] at hlast
  refine findFreeId_eq (fun j hj => ?_) ?_ hlast (Nat.zero_le _) (by omega)
  · rw [h.irqIds.bit j (by omega)]
    exact hmin j hj
  · rw [h.irqIds.bit f hmax]
    exact hfree

/-- The same for notifications, below the word in which bits are hidden. -/
theorem Inv.findFreeNtfnId (h : Inv c β) (hroom : c.numAllocatedNtfns < c.maxNtfnIds)
    (hlow : c.numAllocatedNtfns < 64 * (c.numIrqBitfields - 1)) :
    ∃ ntfn : ℕ, Platsupport.findFreeNtfnId c = .ok ntfn ∧ ntfn < c.maxNtfnIds ∧
      (c.ntfnTable ntfn).allocated = false := by
  obtain ⟨f, hmax, hcount, hfree, hmin⟩ := h.ntfnIds.exists_free hroom
  refine ⟨f, ?_, hmax, hfree⟩
  have hlast := lt_numBitfields hmax
  rw [← h.ntfnWords] at hlast
  refine findFreeId_eq (fun j hj => ?_) ?_ (by omega) (Nat.zero_le _) (by omega)
  · rw [h.ntfnIds.bit j (by omega)]
    exact hmin j hj
  · rw [h.ntfnIds.bit f hmax]
    exact hfree

theorem findFreeNtfnBadgeIndex_some {e : NtfnEntry} {b : ℕ}
    (h : findFreeNtfnBadgeIndex e = some b) :
    b < 64 ∧ e.statusBitfield.getLsbD b = false ∧ e.usableMask.getLsbD b = true := by
  unfold findFreeNtfnBadgeIndex at h
  by_cases hzero : ~~~e.statusBitfield &&& e.usableMask = 0
  · rw [if_pos hzero] at h
    cases h
  rw [if_neg hzero] at h
  cases h
  have hbit := getLsbD_lowestBit hzero
  have hlt := lt_of_getLsbD hbit
  rw [getLsbD_and, getLsbD_not] at hbit
  simp only [Bool.and_eq_true, Bool.not_eq_true', decide_eq_true_eq] at hbit
  exact ⟨hlt, hbit.1.2, hbit.2⟩

/-! ### Entries -/

namespace NtfnOk

variable {e : NtfnEntry} {irqOf irqOf' : ℕ → ℕ → Prop} {b : ℕ}

theorem congr (h : NtfnOk e irqOf) (heq : ∀ b irq, irqOf' b irq ↔ irqOf b irq) :
    NtfnOk e irqOf' := by
  have hsame : irqOf' = irqOf := funext fun b => funext fun irq => propext (heq b irq)
  rw [hsame]
  exact h

/-- An entry without pairs. -/
theorem empty (hstatus : e.statusBitfield = 0) (hnum : e.numIrqsBound = 0)
    (hbound : ∀ b, e.boundIrqs b = 0 ∨ e.boundIrqs b = unpairedId)
    (hno : ∀ b irq, ¬irqOf b irq) : NtfnOk e irqOf where
  lt := fun hR => absurd hR (hno _ _)
  status := by
    intro b
    rw [hstatus]
    constructor
    · intro hb
      simp at hb
    · rintro ⟨irq, hR⟩
      exact absurd hR (hno b irq)
  boundIrqs := fun hR => absurd hR (hno _ _)
  unbound := fun b _ => hbound b
  numIrqsBound := by
    rw [hnum, hstatus]
    rfl
  usable := fun hR => absurd hR (hno _ _)
  allocated := fun hR => absurd hR (hno _ _)

/-- A bit that is free is given to an interrupt. -/
theorem bind (h : NtfnOk e irqOf) (hb : b < 64) (hstatus : e.statusBitfield.getLsbD b = false)
    (husable : e.usableMask.getLsbD b = true) (hall : e.allocated = true) (irq : ℕ)
    (heq : ∀ b' irq', irqOf' b' irq' ↔ (b' = b ∧ irq' = irq) ∨ irqOf b' irq') :
    NtfnOk { e with
      numIrqsBound := e.numIrqsBound + 1
      statusBitfield := e.statusBitfield ||| 1#64 <<< b
      boundIrqs := update e.boundIrqs b irq } irqOf' where
  lt := by
    intro b' irq' hR
    rcases (heq b' irq').1 hR with ⟨rfl, -⟩ | hold
    · exact hb
    · exact h.lt hold
  status := by
    intro b'
    rw [getLsbD_set hb, Bool.or_eq_true, h.status, decide_eq_true_eq]
    constructor
    · rintro (⟨irq', hold⟩ | rfl)
      · exact ⟨irq', (heq b' irq').2 (.inr hold)⟩
      · exact ⟨irq, (heq b' irq).2 (.inl ⟨rfl, rfl⟩)⟩
    · rintro ⟨irq', hR⟩
      rcases (heq b' irq').1 hR with ⟨rfl, -⟩ | hold
      · exact .inr rfl
      · exact .inl ⟨irq', hold⟩
  boundIrqs := by
    intro b' irq' hR
    dsimp only
    rcases (heq b' irq').1 hR with ⟨rfl, rfl⟩ | hold
    · exact update_self _ _ _
    have hne : b' ≠ b := by
      rintro rfl
      rw [(h.status b').2 ⟨irq', hold⟩] at hstatus
      cases hstatus
    rw [update_of_ne hne]
    exact h.boundIrqs hold
  unbound := by
    intro b' hb'
    rw [getLsbD_set hb, Bool.or_eq_false_iff, decide_eq_false_iff_not] at hb'
    dsimp only
    rw [update_of_ne hb'.2]
    exact h.unbound b' hb'.1
  numIrqsBound := by rw [setBits_set hb hstatus, h.numIrqsBound]
  usable := by
    intro b' irq' hR
    rcases (heq b' irq').1 hR with ⟨rfl, -⟩ | hold
    · exact husable
    · exact h.usable hold
  allocated := fun _ => hall

/-- A bit gets free again. -/
theorem release (h : NtfnOk e irqOf) (hstatus : e.statusBitfield.getLsbD b = true)
    (heq : ∀ b' irq', irqOf' b' irq' ↔ b' ≠ b ∧ irqOf b' irq') :
    NtfnOk { e with
      statusBitfield := e.statusBitfield &&& ~~~(1#64 <<< b)
      pendingBitfield := e.pendingBitfield &&& ~~~(1#64 <<< b)
      boundIrqs := update e.boundIrqs b unpairedId
      numIrqsBound := e.numIrqsBound - 1 } irqOf' := by
  have hb := lt_of_getLsbD hstatus
  refine ⟨?_, ?_, ?_, ?_, ?_, ?_, ?_⟩
  · exact fun hR => h.lt ((heq _ _).1 hR).2
  · intro b'
    rw [getLsbD_clear hb, Bool.and_eq_true, h.status, decide_eq_true_eq]
    constructor
    · rintro ⟨⟨irq', hold⟩, hne⟩
      exact ⟨irq', (heq b' irq').2 ⟨hne, hold⟩⟩
    · rintro ⟨irq', hR⟩
      obtain ⟨hne, hold⟩ := (heq b' irq').1 hR
      exact ⟨⟨irq', hold⟩, hne⟩
  · intro b' irq' hR
    obtain ⟨hne, hold⟩ := (heq b' irq').1 hR
    dsimp only
    rw [update_of_ne hne]
    exact h.boundIrqs hold
  · intro b' hb'
    dsimp only
    by_cases heq' : b' = b
    · rw [heq', update_self]
      exact .inr rfl
    · rw [getLsbD_clear hb, decide_eq_true heq', Bool.and_true] at hb'
      rw [update_of_ne heq']
      exact h.unbound b' hb'
  · have hlen := setBits_clear hb hstatus
    have hnum := h.numIrqsBound
    dsimp only
    omega
  · exact fun hR => h.usable ((heq _ _).1 hR).2
  · exact fun hR => h.allocated ((heq _ _).1 hR).2

/-- The pending bits do not matter. -/
theorem setPending (h : NtfnOk e irqOf) (pending : BitVec 64) :
    NtfnOk { e with pendingBitfield := pending } irqOf :=
  ⟨h.lt, h.status, h.boundIrqs, h.unbound, h.numIrqsBound, h.usable, h.allocated⟩

end NtfnOk

/-! ### Pairs -/

namespace Inv

theorem pairedNtfn_none (h : Inv c β) (hirq : irq < c.maxIrqIds) (hβ : β irq = none) :
    (c.irqTable irq).pairedNtfn = unpairedId := by
  rw [(h.irq irq hirq).pairedNtfn, hβ]
  rfl

theorem pairedNtfn_some (h : Inv c β) {irq ntfn b : ℕ} (hβ : β irq = some (ntfn, b)) :
    (c.irqTable irq).pairedNtfn = ntfn := by
  rw [(h.irq irq (h.bounds hβ).1).pairedNtfn, hβ]
  rfl

theorem badgeIndex_some (h : Inv c β) {irq ntfn b : ℕ} (hβ : β irq = some (ntfn, b)) :
    (c.irqTable irq).badgeIndex = .ok b := by
  obtain ⟨hirq, hntfn⟩ := h.bounds hβ
  have hb := (h.ntfn ntfn hntfn).lt hβ
  have hindex : (c.irqTable irq).allocatedBadgeIndex = b := by
    rw [(h.irq irq hirq).badgeIndex, hβ]
    rfl
  rw [IrqEntry.badgeIndex, hindex, if_pos ⟨by omega, by omega⟩]
  rfl

/-- One entry of a table changes, but not what is read from it. -/
theorem read_update {α : Type} {read : α → Bool} {table : ℕ → α} {i : ℕ} {e : α}
    (h : read e = read (table i)) (j : ℕ) : read (update table i e j) = read (table j) := by
  rw [apply_update (fun _ => read) table, h, update_eq_self]

variable (h : Inv c β)

include h

/-- One interrupt changes. -/
theorem irq_update {e : IrqEntry} {β' : ℕ → Option (ℕ × ℕ)} (he : IrqOk e (β' irq))
    (hβ : ∀ i, i ≠ irq → β' i = β i) (i : ℕ) (hi : i < c.maxIrqIds) :
    IrqOk (update c.irqTable irq e i) (β' i) := by
  by_cases heq : i = irq
  · rw [heq, update_self]
    exact he
  · rw [update_of_ne heq, hβ i heq]
    exact h.irq i hi

/-- One notification changes. -/
theorem ntfn_update {e : NtfnEntry} {β' : ℕ → Option (ℕ × ℕ)}
    (he : NtfnOk e fun b irq => β' irq = some (ntfn, b))
    (hβ : ∀ n, n ≠ ntfn → ∀ b irq, β' irq = some (n, b) ↔ β irq = some (n, b)) (n : ℕ)
    (hn : n < c.maxNtfnIds) :
    NtfnOk (update c.ntfnTable ntfn e n) fun b irq => β' irq = some (n, b) := by
  by_cases heq : n = ntfn
  · rw [heq, update_self]
    exact he
  · rw [update_of_ne heq]
    exact (h.ntfn n hn).congr (hβ n heq)

/-- The pair of one interrupt and one entry of each table change, and both entries stay in use or
out of use. -/
theorem change {p : Option (ℕ × ℕ)} {e : IrqEntry} {e' : NtfnEntry}
    (hp : ∀ q, p = some q → irq < c.maxIrqIds ∧ q.1 = ntfn ∧ ntfn < c.maxNtfnIds)
    (hold : ∀ q, β irq = some q → q.1 = ntfn)
    (hinj : ∀ irq' q, p = some q → irq' ≠ irq → β irq' ≠ some q) (he : IrqOk e p)
    (heall : e.allocated = (c.irqTable irq).allocated)
    (he' : NtfnOk e' fun b irq' => update β irq p irq' = some (ntfn, b))
    (heall' : e'.allocated = (c.ntfnTable ntfn).allocated) :
    Inv ((c.setNtfn ntfn e').setIrq irq e) (update β irq p) := by
  have hother : ∀ n, n ≠ ntfn → ∀ b irq',
      update β irq p irq' = some (n, b) ↔ β irq' = some (n, b) := by
    intro n hn b irq'
    by_cases hirq' : irq' = irq
    · subst hirq'
      rw [update_self]
      constructor
      · exact fun hq => absurd (hp _ hq).2.1 hn
      · exact fun hq => absurd (hold _ hq) hn
    · rw [update_of_ne hirq']
  refine ⟨?_, ?_, ?_, ?_, ?_, ?_, h.irqWords, h.ntfnWords, ?_⟩
  · intro irq' n b hβ
    by_cases hirq' : irq' = irq
    · subst hirq'
      rw [update_self] at hβ
      obtain ⟨hirq, hn, hntfn⟩ := hp _ hβ
      subst hn
      exact ⟨hirq, hntfn⟩
    · rw [update_of_ne hirq'] at hβ
      exact h.bounds hβ
  · intro irq1 irq2 q h1 h2
    by_cases heq1 : irq1 = irq <;> by_cases heq2 : irq2 = irq
    · rw [heq1, heq2]
    · subst heq1
      rw [update_self] at h1
      rw [update_of_ne heq2] at h2
      exact absurd h2 (hinj irq2 q h1 heq2)
    · subst heq2
      rw [update_self] at h2
      rw [update_of_ne heq1] at h1
      exact absurd h1 (hinj irq1 q h2 heq1)
    · rw [update_of_ne heq1] at h1
      rw [update_of_ne heq2] at h2
      exact h.injective h1 h2
  · exact h.irq_update (by rw [update_self]; exact he) fun i hi => update_of_ne hi _ _
  · exact h.ntfn_update he' hother
  · have hsame : (fun i => (((c.setNtfn ntfn e').setIrq irq e).irqTable i).allocated) =
        fun i => (c.irqTable i).allocated := funext (read_update heall)
    rw [hsame]
    exact h.irqIds
  · have hsame : (fun n => (((c.setNtfn ntfn e').setIrq irq e).ntfnTable n).allocated) =
        fun n => (c.ntfnTable n).allocated := funext (read_update heall')
    rw [hsame]
    exact h.ntfnIds
  · intro hmini
    refine ⟨(h.mini hmini).1, ?_⟩
    rw [← (h.mini hmini).2]
    exact read_update heall' 0

/-- An interrupt is paired with a bit that is free. -/
theorem bind {ntfn irq b : ℕ} (hirq : irq < c.maxIrqIds) (hntfn : ntfn < c.maxNtfnIds)
    (hb : b < 64) (hnone : β irq = none)
    (hstatus : (c.ntfnTable ntfn).statusBitfield.getLsbD b = false)
    (husable : (c.ntfnTable ntfn).usableMask.getLsbD b = true)
    (hirqAll : (c.irqTable irq).allocated = true) (hntfnAll : (c.ntfnTable ntfn).allocated = true) :
    Inv (c.bind ntfn irq b) (update β irq (some (ntfn, b))) := by
  have hfresh : ∀ irq', β irq' ≠ some (ntfn, b) := by
    intro irq' hβ
    rw [((h.ntfn ntfn hntfn).status b).2 ⟨irq', hβ⟩] at hstatus
    cases hstatus
  refine h.change ?_ ?_ ?_ ?_ rfl ?_ rfl
  · rintro q ⟨⟩
    exact ⟨hirq, rfl, hntfn⟩
  · intro q hq
    rw [hnone] at hq
    cases hq
  · rintro irq' q ⟨⟩ -
    exact hfresh irq'
  · exact ⟨rfl, rfl, fun _ => hirqAll, (h.irq irq hirq).callback⟩
  · refine (h.ntfn ntfn hntfn).bind hb hstatus husable hntfnAll irq fun b' irq' => ?_
    by_cases heq : irq' = irq
    · subst heq
      rw [hnone]
      simp [eq_comm]
    · simp [heq]

/-- An interrupt loses its pair. -/
theorem unbind {ntfn irq b : ℕ} (hβ : β irq = some (ntfn, b)) :
    Inv ((c.release ntfn b).unpair irq) (update β irq none) := by
  obtain ⟨hirq, hntfn⟩ := h.bounds hβ
  refine h.change ?_ ?_ ?_ ?_ rfl ?_ rfl
  · rintro q ⟨⟩
  · intro q hq
    rw [hβ] at hq
    cases hq
    rfl
  · rintro irq' q ⟨⟩
  · exact ⟨rfl, rfl, fun hne => absurd rfl hne, (h.irq irq hirq).callback⟩
  · refine (h.ntfn ntfn hntfn).release (((h.ntfn ntfn hntfn).status b).2 ⟨irq, hβ⟩) ?_
    intro b' irq'
    by_cases heq : irq' = irq
    · subst heq
      rw [hβ]
      simp [eq_comm]
    · rw [update_of_ne heq]
      constructor
      · intro hq
        refine ⟨?_, hq⟩
        rintro rfl
        exact heq (h.injective hq hβ)
      · exact fun hq => hq.2

/-- An interrupt that is free is registered. -/
theorem register (hirq : irq < c.maxIrqIds) (hfree : (c.irqTable irq).allocated = false)
    {callback : Option ℕ} (hsome : callback ≠ none) :
    β irq = none ∧
    Inv { c.setIrq irq { c.irqTable irq with allocated := true, callback := callback } with
      numRegisteredIrqs := c.numRegisteredIrqs + 1
      allocatedIrqBitfields := fillBitInBitfield c.allocatedIrqBitfields irq } β := by
  have hnone : β irq = none := by
    by_contra hne
    rw [(h.irq irq hirq).allocated hne] at hfree
    cases hfree
  refine ⟨hnone, h.bounds, h.injective, ?_, h.ntfn, ?_, h.ntfnIds, h.irqWords, h.ntfnWords, h.mini⟩
  · exact h.irq_update ⟨(h.irq irq hirq).pairedNtfn, (h.irq irq hirq).badgeIndex, fun _ => rfl,
      Option.isSome_iff_ne_none.2 hsome⟩ fun _ _ => rfl
  · exact h.irqIds.fill IrqEntry.allocated hirq hfree rfl

/-- An interrupt without a pair is unregistered. -/
theorem unregister (hirq : irq < c.maxIrqIds) (hall : (c.irqTable irq).allocated = true)
    (hnone : β irq = none) :
    Inv { c.setIrq irq emptyIrq with
      numRegisteredIrqs := c.numRegisteredIrqs - 1
      allocatedIrqBitfields := unfillBitInBitfield c.allocatedIrqBitfields irq } β := by
  refine ⟨h.bounds, h.injective, ?_, h.ntfn, ?_, h.ntfnIds, h.irqWords, h.ntfnWords, h.mini⟩
  · refine h.irq_update ?_ fun _ _ => rfl
    rw [hnone]
    exact ⟨rfl, rfl, fun hne => absurd rfl hne, rfl⟩
  · exact h.irqIds.unfill IrqEntry.allocated hirq hall rfl

/-! ### Notifications -/

/-- A notification that is not in use has no pairs. -/
theorem not_paired (hntfn : ntfn < c.maxNtfnIds) (hfree : (c.ntfnTable ntfn).allocated = false)
    (b irq : ℕ) : β irq ≠ some (ntfn, b) := by
  intro hβ
  rw [(h.ntfn ntfn hntfn).allocated hβ] at hfree
  cases hfree

theorem provide (hntfn : ntfn < c.maxNtfnIds) (hfree : (c.ntfnTable ntfn).allocated = false)
    (root : ℕ) (usableMask : BitVec 64) :
    Inv { c.setNtfn ntfn ⟨true, root, 0, usableMask, 0, 0, fun _ => 0⟩ with
      numAllocatedNtfns := c.numAllocatedNtfns + 1
      allocatedNtfnBitfields := fillBitInBitfield c.allocatedNtfnBitfields ntfn } β := by
  refine ⟨h.bounds, h.injective, h.irq, ?_, h.irqIds, ?_, h.irqWords, h.ntfnWords, ?_⟩
  · exact h.ntfn_update (.empty rfl rfl (fun _ => .inl rfl) (h.not_paired hntfn hfree))
      fun _ _ _ _ => Iff.rfl
  · exact h.ntfnIds.fill NtfnEntry.allocated hntfn hfree rfl
  intro hmini
  refine ⟨(h.mini hmini).1, ?_⟩
  dsimp only [setNtfn]
  by_cases heq : 0 = ntfn
  · subst heq
    rw [update_self]
  · rw [update_of_ne heq]
    exact (h.mini hmini).2

end Inv

/-- The entries of the interrupts of a list of bits lose their pairs. -/
def unpairAll (table : ℕ → IrqEntry) (irqs : List ℕ) (i : ℕ) : IrqEntry :=
  if i ∈ irqs then
    { table i with pairedNtfn := unpairedId, allocatedBadgeIndex := unpairedId }
  else table i

/-- The loop of `sel4platsupport_irq_return_ntfn`. -/
theorem foldlM_unpairBit {e : NtfnEntry} {bits irqs : List ℕ}
    (hirqs : bits.map e.boundIrqs = irqs.map Int.ofNat) (hlt : ∀ irq ∈ irqs, irq < c.maxIrqIds) :
    bits.foldlM (fun c i => unpairBit e i c) c =
      .ok { c with irqTable := unpairAll c.irqTable irqs } := by
  induction bits generalizing c irqs with
  | nil =>
    obtain rfl : irqs = [] := by simpa using hirqs.symm
    rfl
  | cons b bits ih =>
    cases irqs with
    | nil => simp at hirqs
    | cons irq irqs =>
      obtain ⟨hhead, htail⟩ := List.cons.inj hirqs
      have hstep : unpairBit e b c = .ok (c.unpair irq) := by
        rw [unpairBit, hhead]
        change (c.irqIndex (irq : ℤ) >>= _) = _
        rw [irqIndex_ofNat (hlt irq List.mem_cons_self)]
        rfl
      rw [List.foldlM_cons, hstep]
      change bits.foldlM _ (c.unpair irq) = _
      rw [@ih (c.unpair irq) irqs htail fun i hi => hlt i (List.mem_cons_of_mem _ hi)]
      refine congrArg (fun table => Except.ok { c with irqTable := table }) (funext fun i => ?_)
      dsimp only [unpair, setIrq, unpairAll]
      by_cases heq : i = irq
      · subst heq
        rw [update_self, if_pos (List.mem_cons_self : i ∈ i :: irqs)]
        split <;> rfl
      · rw [update_of_ne heq]
        simp only [List.mem_cons, heq, false_or]

/-- The binding without the pairs of a notification. -/
def withoutNtfn (β : ℕ → Option (ℕ × ℕ)) (ntfn irq : ℕ) : Option (ℕ × ℕ) :=
  (β irq).filter fun p => decide (p.1 ≠ ntfn)

theorem withoutNtfn_eq_some {p : ℕ × ℕ} :
    withoutNtfn β ntfn irq = some p ↔ β irq = some p ∧ p.1 ≠ ntfn := by
  rw [withoutNtfn, Option.filter_eq_some_iff, decide_eq_true_eq]

/-- The interrupts that are paired with a notification. -/
theorem Inv.exists_irqs (h : Inv c β) (hntfn : ntfn < c.maxNtfnIds) :
    ∃ irqs : List ℕ, (setBits (c.ntfnTable ntfn).statusBitfield).map (c.ntfnTable ntfn).boundIrqs =
        irqs.map Int.ofNat ∧
      ∀ irq, irq ∈ irqs ↔ ∃ b, β irq = some (ntfn, b) := by
  have hok := h.ntfn ntfn hntfn
  refine ⟨(setBits (c.ntfnTable ntfn).statusBitfield).map
    fun b => ((c.ntfnTable ntfn).boundIrqs b).toNat, ?_, ?_⟩
  · rw [List.map_map]
    refine List.map_congr_left fun b hb => ?_
    obtain ⟨irq, hβ⟩ := (hok.status b).1 (mem_setBits.1 hb)
    change _ = (((c.ntfnTable ntfn).boundIrqs b).toNat : ℤ)
    rw [hok.boundIrqs hβ]
    rfl
  · intro irq
    rw [List.mem_map]
    constructor
    · rintro ⟨b, hb, rfl⟩
      obtain ⟨irq, hβ⟩ := (hok.status b).1 (mem_setBits.1 hb)
      refine ⟨b, ?_⟩
      rw [hok.boundIrqs hβ]
      exact hβ
    · rintro ⟨b, hβ⟩
      refine ⟨b, mem_setBits.2 ((hok.status b).2 ⟨irq, hβ⟩), ?_⟩
      rw [hok.boundIrqs hβ]
      rfl

/-- All pairs of a notification are taken away, and its entry is emptied. -/
theorem Inv.giveBack (h : Inv c β) (hntfn : ntfn < c.maxNtfnIds)
    (hall : (c.ntfnTable ntfn).allocated = true) (hstandard : c.ifaceType ≠ .mini) {irqs : List ℕ}
    (hirqs : ∀ irq, irq ∈ irqs ↔ ∃ b, β irq = some (ntfn, b)) :
    Inv { ({ c with irqTable := unpairAll c.irqTable irqs } : IrqCookie).setNtfn ntfn emptyNtfn with
      numAllocatedNtfns := c.numAllocatedNtfns - 1
      allocatedNtfnBitfields := unfillBitInBitfield c.allocatedNtfnBitfields ntfn }
      (withoutNtfn β ntfn) := by
  refine ⟨?_, ?_, ?_, ?_, ?_, ?_, h.irqWords, h.ntfnWords, fun hmini => absurd hmini hstandard⟩
  · exact fun hβ => h.bounds (withoutNtfn_eq_some.1 hβ).1
  · exact fun h1 h2 => h.injective (withoutNtfn_eq_some.1 h1).1 (withoutNtfn_eq_some.1 h2).1
  · intro i hi
    dsimp only [setNtfn, unpairAll]
    have hok := h.irq i hi
    by_cases hmem : i ∈ irqs
    · obtain ⟨b, hβ⟩ := (hirqs i).1 hmem
      have hnone : withoutNtfn β ntfn i = none := by
        rw [withoutNtfn, hβ]
        exact Option.filter_some_neg (by simp)
      rw [if_pos hmem, hnone]
      exact ⟨rfl, rfl, fun hne => absurd rfl hne, hok.callback⟩
    · have hsame : withoutNtfn β ntfn i = β i := by
        cases hβ : β i with
        | none =>
          rw [withoutNtfn, hβ]
          rfl
        | some p =>
          refine withoutNtfn_eq_some.2 ⟨hβ, ?_⟩
          rintro rfl
          exact hmem ((hirqs i).2 ⟨p.2, hβ⟩)
      rw [if_neg hmem, hsame]
      exact hok
  · refine h.ntfn_update ?_ fun n hn b irq => ?_
    · exact .empty rfl rfl (fun _ => .inr rfl) fun b irq hβ => (withoutNtfn_eq_some.1 hβ).2 rfl
    · rw [withoutNtfn_eq_some]
      exact ⟨fun hβ => hβ.1, fun hβ => ⟨hβ, hn⟩⟩
  · have hsame : (fun i => (unpairAll c.irqTable irqs i).allocated) =
        fun i => (c.irqTable i).allocated := by
      funext i
      unfold unpairAll
      split <;> rfl
    dsimp only [setNtfn]
    rw [hsame]
    exact h.irqIds
  · exact h.ntfnIds.unfill NtfnEntry.allocated hntfn hall rfl

/-- The pending bits of a notification change. -/
theorem Inv.setPending (h : Inv c β) (hntfn : ntfn < c.maxNtfnIds)
    (pending : BitVec 64) :
    Inv (c.setNtfn ntfn { c.ntfnTable ntfn with pendingBitfield := pending }) β := by
  have halloc : ∀ n, (update c.ntfnTable ntfn
      { c.ntfnTable ntfn with pendingBitfield := pending } n).allocated =
        (c.ntfnTable n).allocated := Inv.read_update rfl
  refine ⟨h.bounds, h.injective, h.irq, ?_, h.irqIds, ?_, h.irqWords, h.ntfnWords, ?_⟩
  · exact h.ntfn_update ((h.ntfn ntfn hntfn).setPending pending) fun _ _ _ _ => Iff.rfl
  · have hsame := funext halloc
    dsimp only [setNtfn]
    rw [hsame]
    exact h.ntfnIds
  · intro hmini
    exact ⟨(h.mini hmini).1, (halloc 0).trans (h.mini hmini).2⟩

theorem inv_new (maxIrqIds maxNtfnIds : ℕ) :
    Inv (newIrqOpsCommon maxIrqIds maxNtfnIds .standard) fun _ => none where
  bounds := by simp
  injective := by simp
  irq := fun _ _ => ⟨rfl, rfl, fun hne => absurd rfl hne, rfl⟩
  ntfn := fun _ _ => NtfnOk.empty rfl rfl (fun _ => .inr rfl) (by simp)
  irqIds := ⟨fun _ _ => by simp [newIrqOpsCommon, emptyIrq], by simp [newIrqOpsCommon, emptyIrq]⟩
  ntfnIds := ⟨fun _ _ => by simp [newIrqOpsCommon, emptyNtfn], by simp [newIrqOpsCommon, emptyNtfn]⟩
  irqWords := rfl
  ntfnWords := rfl
  mini := nofun

end SeL4Kernel.Platsupport
