import SeL4Kernel.Allocman.Malloc

/-!
# Runs of the heap of `allocman`

Any sequence of requests, frees and writes to the memory that has been handed out: the free
list stays in order and tiles the memory together with the blocks in use (`heap_ordered`),
as long as no request overflows when it is rounded and no memory from `morecore` ends where
the heap's own structure starts. Without these conditions it does not
(`heap_disordered`).
-/

namespace SeL4Kernel.KRMalloc

open Finset Function

variable {base a units fuel : ℕ} {owned : ℕ → Prop} {live list : Finset ℕ} {h h' : Heap}

/-! ### More fuel gives the same result -/

theorem free_mono {fuel' ap : ℕ} (hle : fuel ≤ fuel') (hfree : free fuel ap h = some h') :
    free fuel' ap h = some h' := by
  unfold free at hfree ⊢
  split at hfree
  · rename_i hap
    rw [if_pos hap]
    exact hfree
  · rename_i hap
    rw [if_neg hap]
    dsimp only at hfree ⊢
    cases hpoint : insertionPoint h (ap - headerSize) fuel h.freep with
    | none =>
      rw [hpoint] at hfree
      cases hfree
    | some q =>
      rw [hpoint] at hfree
      rw [insertionPoint_mono h _ fuel fuel' _ q hle hpoint]
      exact hfree

theorem allocLoop_mono {r : ℕ × List (Option ℕ) × Heap} :
    ∀ (fuel fuel' prevp p : ℕ) (answers : List (Option ℕ)) (h : Heap), fuel ≤ fuel' →
      allocLoop units fuel prevp p answers h = some r →
      allocLoop units fuel' prevp p answers h = some r := by
  intro fuel
  induction fuel with
  | zero =>
    intro fuel' prevp p answers h _ hr
    cases hr
  | succ fuel ih =>
    intro fuel' prevp p answers h hle hr
    obtain ⟨fuel', rfl⟩ : ∃ n, fuel' = n + 1 := ⟨fuel' - 1, by omega⟩
    by_cases hfit : units ≤ h.size p
    · rw [allocLoop_of_fit hfit] at hr ⊢
      exact hr
    by_cases hp : p = h.freep
    · rw [allocLoop_wrapped hfit hp] at hr ⊢
      cases answers with
      | nil => exact hr
      | cons answer rest =>
        cases answer with
        | none => exact hr
        | some q =>
          dsimp only at hr ⊢
          cases hfree : free fuel (headersAfter q 1)
              { h with size := update h.size q units } with
          | none =>
            rw [hfree] at hr
            cases hr
          | some h1 =>
            rw [hfree] at hr
            rw [free_mono (show fuel ≤ fuel' by omega) hfree]
            exact ih fuel' _ _ _ _ (by omega) hr
    · rw [allocLoop_of_ne hfit hp] at hr ⊢
      exact ih fuel' _ _ _ _ (by omega) hr

/-! ### Runs -/

/-- The heap, the headers of the blocks that are in use, and the memory that `morecore` has
given. -/
structure Mspace where
  heap : Heap
  live : Finset ℕ
  owned : ℕ → Prop

/-- What `morecore` may return: memory that it has not returned before, away from the
header in the heap's own structure. -/
structure NewMemory (base : ℕ) (owned : ℕ → Prop) (q units : ℕ) : Prop where
  pos : 0 < q
  lt : q + headerSize * units < 2 ^ 64
  new : ∀ x, InBlock q (headerSize * units) x → ¬owned x
  away : ∀ x, InBlock q (headerSize * units) x → ¬InBlock base headerSize x

/-- What the users of the heap do. -/
inductive Event where
  | alloc (nbytes : ℕ) (answers : List (Option ℕ))
  | free (ap : ℕ)
  | write

/-- The header at `a` has no byte in common with the memory handed out for the live
blocks. -/
def Kept (live : Finset ℕ) (h : Heap) (a : ℕ) : Prop :=
  ∀ b ∈ live, a ≤ b ∨ b + h.len b ≤ a

/-- One event. Memory that has been handed out may be written at any time. -/
inductive Step (base : ℕ) : Event → Mspace → Mspace → Prop where
  | alloc {σ : Mspace} (nbytes fuel : ℕ) {result : ℕ} (answers : List (Option ℕ))
      {rest : List (Option ℕ)} {h' : Heap} (hbytes : nbytes < 2 ^ 64)
      (hnew : ∀ q rest, answers = some q :: rest → NewMemory base σ.owned q (nunits nbytes))
      (hrun : KRMalloc.alloc base fuel nbytes answers σ.heap = some (result, rest, h')) :
      Step base (.alloc nbytes answers) σ
        { heap := h'
          live := if result = 0 then σ.live else insert (result - headerSize) σ.live
          owned := fun x => σ.owned x ∨
            ∃ q, some q ∈ answers.take (answers.length - rest.length) ∧
              InBlock q (headerSize * nunits nbytes) x }
  | free {σ : Mspace} (a fuel : ℕ) {h' : Heap} (ha : a ∈ σ.live)
      (hrun : KRMalloc.free fuel (a + headerSize) σ.heap = some h') :
      Step base (.free (a + headerSize)) σ { σ with heap := h', live := σ.live.erase a }
  | freeNull {σ : Mspace} {fuel : ℕ} {h' : Heap} (hrun : KRMalloc.free fuel 0 σ.heap = some h') :
      Step base (.free 0) σ { σ with heap := h' }
  | write {σ : Mspace} {h' : Heap} (hfreep : h'.freep = σ.heap.freep)
      (hkept : ∀ a, Kept σ.live σ.heap a → h'.ptr a = σ.heap.ptr a ∧ h'.size a = σ.heap.size a) :
      Step base .write σ { σ with heap := h' }

/-- The size of the request does not overflow when it is rounded, and the memory from
`morecore` does not end at `base`. -/
def Event.Tame (base : ℕ) : Event → Prop
  | .alloc nbytes answers => nbytes + headerSize ≤ 2 ^ 64 ∧
      ∀ q rest, answers = some q :: rest → q + headerSize * nunits nbytes ≠ base
  | _ => True

/-- States after any number of events of the kind `ok`. -/
inductive Reached (base : ℕ) (ok : Event → Prop) : Mspace → Prop where
  | start {h : Heap} (hpos : 0 < base) (hlt : base + headerSize ≤ 2 ^ 64) (hfreep : h.freep = 0) :
      Reached base ok { heap := h, live := ∅, owned := fun _ => False }
  | step {e : Event} {σ τ : Mspace} (h : Reached base ok σ) (hok : ok e)
      (hstep : Step base e σ τ) : Reached base ok τ

/-- The free list is in order and tiles the memory together with the live blocks; before
the first request there is neither a list nor memory. -/
structure Mspace.Ordered (base : ℕ) (σ : Mspace) : Prop where
  away : Away base σ.owned
  heap : (σ.heap.freep = 0 ∧ σ.live = ∅ ∧ ∀ x, ¬σ.owned x) ∨
    ∃ list, Inv base σ.owned σ.live list σ.heap

variable {σ : Mspace} {nbytes : ℕ} {answers : List (Option ℕ)}

/-- The list is there from the first request on. -/
theorem Mspace.Ordered.start (h : σ.Ordered base) :
    ∃ list, Inv base σ.owned σ.live list (start base σ.heap) := by
  unfold KRMalloc.start
  rcases h.heap with ⟨hfreep, hlive, howned⟩ | ⟨list, hi⟩
  · rw [if_pos hfreep, hlive]
    refine ⟨∅, Circle.single (update_self _ _ _), notMem_empty _, update_self _ _ _,
      mem_insert_self _ _, disjoint_empty_left _, ?_, by simp⟩
    exact ⟨by simp, by simp, by simpa using howned⟩
  · have hne : σ.heap.freep ≠ 0 := by
      have := (hi.bounds_of_mem h.away hi.freep).1
      omega
    rw [if_neg hne]
    exact ⟨list, hi⟩

theorem fresh_of_new (hw : Away base owned) {q : ℕ} (hnew : NewMemory base owned q units)
    (hend : q + headerSize * units ≠ base) : Fresh base owned q units := by
  refine ⟨⟨hw.base_pos, hw.base_lt, ?_, ?_, ?_⟩, hnew.new⟩
  · rintro x (hx | hx)
    · exact hw.away x hx
    · obtain ⟨hlo, hhi⟩ := hx
      have h1 := hnew.away x ⟨hlo, hhi⟩
      have h2 := hnew.away (x + 1)
      unfold InBlock at h1 h2
      unfold headerSize at *
      omega
  · rintro x (hx | hx)
    · exact hw.owned_pos x hx
    · have := hnew.pos
      have := hx.1
      omega
  · rintro x (hx | hx)
    · exact hw.owned_lt x hx
    · have := hnew.lt
      have := hx.2
      omega

theorem nunits_pos (nbytes : ℕ) : 0 < nunits nbytes := Nat.succ_pos _

/-- Without an overflow a block is large enough for the request and its own header. -/
theorem le_nunits (h : nbytes + headerSize ≤ 2 ^ 64) :
    nbytes + headerSize ≤ headerSize * nunits nbytes := by
  unfold nunits
  unfold headerSize at h ⊢
  omega

/-- What a request gives: with enough fuel it returns, and whenever it returns the result is
NULL or a block of the right size. -/
theorem alloc_spec (h : σ.Ordered base)
    (hnew : ∀ q rest, answers = some q :: rest → NewMemory base σ.owned q (nunits nbytes))
    (htame : (Event.alloc nbytes answers).Tame base) :
    ∃ N result rest h', (∀ fuel, N ≤ fuel →
        alloc base fuel nbytes answers σ.heap = some (result, rest, h')) ∧
      Allocated base σ.owned σ.live (nunits nbytes) answers (start base σ.heap) result rest h' := by
  obtain ⟨list, hi⟩ := h.start
  have hfresh : ∀ q rest, answers = some q :: rest → Fresh base σ.owned q (nunits nbytes) := by
    intro q rest hq
    exact fresh_of_new h.away (hnew q rest hq) (htame.2 q rest hq)
  obtain ⟨result, rest, h', hloop, halloc⟩ := allocLoop_spec h.away hi (nunits_pos nbytes) hfresh
    (show 2 * list.card + 8 < 2 * list.card + 9 by omega)
  refine ⟨2 * list.card + 9, result, rest, h', ?_, halloc⟩
  intro fuel hfuel
  exact allocLoop_mono _ fuel _ _ _ _ hfuel hloop

theorem Mspace.Ordered.free_spec (h : σ.Ordered base) (ha : a ∈ σ.live) :
    ∃ N h' list', (∀ fuel, N ≤ fuel → free fuel (a + headerSize) σ.heap = some h') ∧
      Inv base σ.owned (σ.live.erase a) list' h' := by
  rcases h.heap with ⟨_, hlive, _⟩ | ⟨list, hi⟩
  · rw [hlive] at ha
    exact absurd ha (notMem_empty a)
  · obtain ⟨h', list', hfree, hinv, _⟩ := KRMalloc.free_spec h.away hi ha
      (show list.card + 1 < list.card + 2 by omega)
    have hamem := mem_union_right list ha
    rw [hi.headersAfter_eq h.away hamem (hi.bounds h.away hamem).2.1] at hfree
    exact ⟨list.card + 2, h', list', fun fuel hfuel => free_mono hfuel hfree, hinv⟩

/-- The results for two amounts of fuel are those for their maximum. -/
theorem alloc_unique {N : ℕ} {r r' : ℕ × List (Option ℕ) × Heap}
    (hr : alloc base fuel nbytes answers h = some r)
    (hr' : ∀ fuel, N ≤ fuel → alloc base fuel nbytes answers h = some r') : r = r' := by
  have h1 := hr' (max fuel N) (Nat.le_max_right _ _)
  have h2 : alloc base (max fuel N) nbytes answers h = some r :=
    allocLoop_mono _ _ _ _ _ _ (Nat.le_max_left fuel N) hr
  exact Option.some.inj (h2.symm.trans h1)

theorem ordered_alloc (h : σ.Ordered base) {result : ℕ} {rest : List (Option ℕ)} {h' : Heap}
    (hnew : ∀ q rest, answers = some q :: rest → NewMemory base σ.owned q (nunits nbytes))
    (htame : (Event.alloc nbytes answers).Tame base)
    (hrun : alloc base fuel nbytes answers σ.heap = some (result, rest, h')) :
    Mspace.Ordered base
      { heap := h'
        live := if result = 0 then σ.live else insert (result - headerSize) σ.live
        owned := fun x => σ.owned x ∨
          ∃ q, some q ∈ answers.take (answers.length - rest.length) ∧
            InBlock q (headerSize * nunits nbytes) x } := by
  obtain ⟨N, result1, rest1, h1, hall, halloc⟩ := alloc_spec h hnew htame
  obtain ⟨rfl, rfl, rfl⟩ : result = result1 ∧ rest = rest1 ∧ h' = h1 := by
    have heq := alloc_unique hrun hall
    exact ⟨congrArg (·.1) heq, congrArg (·.2.1) heq, congrArg (·.2.2) heq⟩
  -- a block that is taken is one more live block
  have htaken : ∀ owned, Taken base owned σ.live (nunits nbytes) result h' → result ≠ 0 ∧
      ∃ list, Inv base owned (insert (result - headerSize) σ.live) list h' := by
    rintro owned ⟨a, list, hresult, _, _, hinv⟩
    have hsub : result - headerSize = a := by omega
    refine ⟨?_, list, hsub.symm ▸ hinv⟩
    unfold headerSize at hresult
    omega
  have hnone : (∀ q : ℕ, some q ∉ answers.take (answers.length - rest.length)) →
      (fun x => σ.owned x ∨ ∃ q, some q ∈ answers.take (answers.length - rest.length) ∧
        InBlock q (headerSize * nunits nbytes) x) = σ.owned := by
    intro hno
    funext x
    refine propext (or_iff_left ?_)
    rintro ⟨q, hq, _⟩
    exact hno q hq
  cases halloc with
  | found ht =>
    obtain ⟨hne, list, hinv⟩ := htaken _ ht
    rw [hnone (by simp), if_neg hne]
    exact ⟨h.away, .inr ⟨list, hinv⟩⟩
  | failed hrest =>
    have hno : ∀ q : ℕ, some q ∉ answers.take (answers.length - rest.length) := by
      intro q
      rcases hrest with ⟨rfl, rfl⟩ | rfl
      · simp
      · simp
    rw [hnone hno]
    exact ⟨h.away, .inr h.start⟩
  | grown hrest ht =>
    rename_i q
    obtain ⟨hne, list, hinv⟩ := htaken _ ht
    have howned : (fun x => σ.owned x ∨
        ∃ q, some q ∈ answers.take (answers.length - rest.length) ∧
          InBlock q (headerSize * nunits nbytes) x) =
        fun x => σ.owned x ∨ InBlock q (headerSize * nunits nbytes) x := by
      funext x
      rw [hrest]
      simp
    have hfresh := fresh_of_new h.away (hnew q rest hrest) (htame.2 q rest hrest)
    rw [howned, if_neg hne]
    exact ⟨hfresh.away, .inr ⟨list, hinv⟩⟩

theorem ordered_write (h : σ.Ordered base) {h' : Heap}
    (hfreep : h'.freep = σ.heap.freep)
    (hkept : ∀ a, Kept σ.live σ.heap a → h'.ptr a = σ.heap.ptr a ∧ h'.size a = σ.heap.size a) :
    Mspace.Ordered base { σ with heap := h' } := by
  refine ⟨h.away, ?_⟩
  rcases h.heap with ⟨hzero, hlive, howned⟩ | ⟨list, hi⟩
  · exact .inl ⟨hfreep.trans hzero, hlive, howned⟩
  -- headers are no memory that has been handed out
  have hkeep : ∀ a ∈ insert base (list ∪ σ.live), Kept σ.live σ.heap a := by
    intro a ha b hb
    have hbmem := mem_union_right list hb
    rcases mem_insert.1 ha with rfl | ha
    · rcases (hi.bounds h.away hbmem).2.2.2 with hlow | hhigh
      · exact .inr (by omega)
      · exact .inl (by omega)
    · rcases Nat.lt_or_ge b a with hlt | hge
      · exact .inr (hi.tiling.apart b hbmem a ha hlt)
      · exact .inl hge
  refine .inr ⟨list, hi.congr ?_ ?_ hfreep⟩
  · intro a ha
    refine (hkept a (hkeep a ?_)).1
    exact insert_subset_insert base subset_union_left ha
  · intro a ha
    exact (hkept a (hkeep a ha)).2

theorem ordered_step {e : Event} {σ τ : Mspace} (h : σ.Ordered base) (htame : e.Tame base)
    (hstep : Step base e σ τ) : τ.Ordered base := by
  cases hstep with
  | alloc nbytes fuel answers hbytes hnew hrun => exact ordered_alloc h hnew htame hrun
  | free a fuel ha hrun =>
    obtain ⟨N, h1, list', hall, hinv⟩ := h.free_spec ha
    have h2 := free_mono (Nat.le_max_left fuel N) hrun
    rw [hall _ (Nat.le_max_right _ _)] at h2
    cases h2
    exact ⟨h.away, .inr ⟨list', hinv⟩⟩
  | freeNull hrun =>
    cases hrun
    exact h
  | write hfreep hkept => exact ordered_write h hfreep hkept

theorem ordered_of_reached (h : Reached base (Event.Tame base) σ) : σ.Ordered base := by
  induction h with
  | start hpos hlt hfreep => exact ⟨⟨hpos, hlt, nofun, nofun, nofun⟩, .inl ⟨hfreep, rfl, nofun⟩⟩
  | step _ htame hstep ih => exact ordered_step ih htame hstep

/-- **The heap.** After any tame events the free list goes once around the free blocks in
address order, no two of them meet, and free and live blocks tile the memory from
`morecore`. Every further request returns, and what it returns is NULL or a new block with
room for the request; every live block can be freed. -/
theorem heap_ordered (h : Reached base (Event.Tame base) σ) :
    σ.Ordered base ∧
    (∀ list, Inv base σ.owned σ.live list σ.heap → ∀ a ∈ list, ∀ b ∈ list, a + σ.heap.len a ≠ b) ∧
    (∀ nbytes answers,
      (∀ q rest, answers = some q :: rest → NewMemory base σ.owned q (nunits nbytes)) →
      (Event.alloc nbytes answers).Tame base →
      ∃ N result rest h', (∀ fuel, N ≤ fuel →
          alloc base fuel nbytes answers σ.heap = some (result, rest, h')) ∧
        (result ≠ 0 → ∃ a, result = a + headerSize ∧ a ∉ σ.live ∧
          result + nbytes ≤ a + h'.len a)) ∧
    ∀ a ∈ σ.live, ∃ N h', ∀ fuel, N ≤ fuel → free fuel (a + headerSize) σ.heap = some h' := by
  have hord := ordered_of_reached h
  refine ⟨hord, ?_, ?_, ?_⟩
  · intro list hi a ha b hb hmeet
    refine hi.gap a ha ?_
    rw [hmeet]
    exact (hi.next_of_meet hord.away ha (mem_insert_of_mem hb) hmeet).symm
  · intro nbytes answers hnew htame
    obtain ⟨N, result, rest, h', hall, halloc⟩ := alloc_spec hord hnew htame
    have hroom : ∀ owned, Taken base owned σ.live (nunits nbytes) result h' →
        ∃ a, result = a + headerSize ∧ a ∉ σ.live ∧ result + nbytes ≤ a + h'.len a := by
      rintro owned ⟨a, list, hresult, hnot, hsize, _⟩
      have := le_nunits htame.1
      refine ⟨a, hresult, hnot, ?_⟩
      unfold Heap.len
      rw [hsize]
      omega
    refine ⟨N, result, rest, h', hall, ?_⟩
    intro hne
    cases halloc with
    | found ht => exact hroom _ ht
    | failed hrest => exact absurd rfl hne
    | grown hrest ht => exact hroom _ ht
  · intro a ha
    obtain ⟨N, h', _, hall, _⟩ := hord.free_spec ha
    exact ⟨N, h', hall⟩

theorem Reached.any {e : Event} {τ : Mspace} (h : Reached base (fun _ => True) σ)
    (hstep : Step base e σ τ) : Reached base (fun _ => True) τ := .step h trivial hstep

/-- A heap before the first request. -/
def Heap.zero : Heap := { ptr := fun _ => 0, size := fun _ => 0, freep := 0 }

/-- After a request for 8 bytes, for which `morecore` has given two headers at 4096. -/
theorem heap_ordered_after_request : ∃ σ : Mspace, σ.live = {4096} ∧
    Reached 64 (Event.Tame 64) σ ∧ σ.Ordered 64 := by
  have hnew : ∀ q rest, [some 4096] = some q :: rest →
      NewMemory 64 (fun _ => False) q (nunits 8) := by
    rintro q rest ⟨⟩
    refine ⟨by decide, by decide, fun _ _ hf => hf, ?_⟩
    rintro x ⟨hlo, _⟩ ⟨_, hhi⟩
    unfold headerSize at hhi
    omega
  have htame : (Event.alloc 8 [some 4096]).Tame 64 := by
    refine ⟨by decide, ?_⟩
    rintro q rest ⟨⟩
    decide
  have hreach : Reached 64 (Event.Tame 64) _ :=
    .step (.start (h := Heap.zero) (by decide) (by decide) rfl) htame
      (.alloc _ 9 _ (by decide) hnew rfl)
  exact ⟨_, rfl, hreach, (heap_ordered hreach).1⟩

/-- A request whose size overflows gets a block without any room, and when memory ends at
`base`, the list can lose `base`, and a block is handed out twice. -/
theorem heap_disordered :
    (∃ result h', NewMemory 64 (fun _ => False) 4096 (nunits (2 ^ 64 - 1)) ∧
      alloc 64 9 (2 ^ 64 - 1) [some 4096] Heap.zero = some (result, [], h') ∧
      result = 4112 ∧ h'.len 4096 = headerSize) ∧
    ∃ σ : Mspace, Reached 4096 (fun _ => True) σ ∧ ∃ result h',
      alloc 4096 9 0 [] σ.heap = some (result, [], h') ∧ result = 4048 ∧ 4032 ∈ σ.live := by
  constructor
  · refine ⟨_, _, ⟨by decide, by decide, fun _ _ hf => hf, ?_⟩, rfl, rfl, rfl⟩
    rintro x ⟨hlo, _⟩ ⟨_, hhi⟩
    unfold headerSize at hhi
    omega
  · have hnew : ∀ q rest, [some 4032] = some q :: rest →
        NewMemory 4096 (fun _ => False) q (nunits 0) := by
      rintro q rest ⟨⟩
      refine ⟨by decide, by decide, fun _ _ hf => hf, ?_⟩
      rintro x ⟨_, hhi⟩ ⟨hlo, _⟩
      have : nunits 0 = 1 := by decide
      unfold headerSize at hhi
      omega
    have h1 := (Reached.start (h := Heap.zero) (by decide) (by decide) rfl).any
      (.alloc _ 9 _ (by decide) hnew rfl)
    have h2 := h1.any (.alloc 0 9 [some 4080] (by decide) (by
        rintro q rest ⟨⟩
        have hone : nunits 0 = 1 := by decide
        refine ⟨by decide, by decide, ?_, ?_⟩
        · rintro x ⟨hlo, _⟩ (hf | ⟨q, hq, _, hhi⟩)
          · exact hf
          · unfold headerSize at hhi
            have hq : q = 4032 := by simpa using hq
            omega
        · rintro x ⟨_, hhi⟩ ⟨hlo, _⟩
          unfold headerSize at hhi
          omega) rfl)
    have h3 := h2.any (.free 4032 9 (by decide) rfl)
    have h4 := h3.any (.free 4080 9 (by decide) rfl)
    have h5 := h4.any (.alloc 0 9 [] (by decide) nofun rfl)
    have h6 := h5.any (.alloc 0 9 [] (by decide) nofun rfl)
    exact ⟨_, h6, _, _, rfl, rfl, by decide⟩

end SeL4Kernel.KRMalloc
