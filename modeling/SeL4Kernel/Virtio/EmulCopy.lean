import Mathlib.Data.List.GetD
import SeL4Kernel.Virtio.EmulRing

/-!
# Copying through a descriptor chain

The copy loop of the receive functions moves three cursors: over the descriptors,
over the buffers of the packet and inside each of them. At any time the bytes that
are still to be copied are those of the buffers from the cursor on (`pending`), and
the addresses that are still free are those of the chain from the cursor on
(`room`). A round copies one piece, so that

    scatter mem room pending

stays the memory it was at the start, and the loop ends with nothing pending or no
room. The loops that collect a packet go the other way and are read off the same
list of addresses.
-/

namespace SeL4Kernel.Virtio

open List

/-! ### The cursors of the copy loop -/

/-- The bytes from the cursor on. -/
def pending (S : List (List UInt8)) (j b : ℕ) : List UInt8 :=
  (S.getD j []).drop b ++ (S.drop (j + 1)).flatten

/-- The addresses from the cursor on. -/
def room (d : VringDesc) (w : ℕ) (l : List (ℕ × VringDesc)) : List ℕ :=
  List.range' (d.addr + w) (d.len - w) ++ buffers l

theorem pending_zero (S : List (List UInt8)) (j : ℕ) : pending S j 0 = (S.drop j).flatten := by
  by_cases h : j < S.length
  · rw [pending, drop_zero, drop_eq_getElem_cons h, flatten_cons, getD_eq_getElem _ _ h]
  have hj : S.drop j = [] := drop_eq_nil_of_le (by omega)
  have hnext : S.drop (j + 1) = [] := drop_eq_nil_of_le (by omega)
  rw [pending, getD_eq_default _ _ (by omega), hj, hnext]
  rfl

/-- A piece of the current buffer comes off the front. -/
theorem pending_split (S : List (List UInt8)) (j b n : ℕ) :
    pending S j b = ((S.getD j []).drop b).take n ++ pending S j (b + n) := by
  rw [pending, pending, ← append_assoc]
  congr 1
  rw [← drop_drop, take_append_drop]

theorem pending_done (S : List (List UInt8)) (j : ℕ) :
    pending S j (S.getD j []).length = pending S (j + 1) 0 := by
  rw [pending_zero, pending, drop_length, nil_append]

theorem length_pending {S : List (List UInt8)} {j b : ℕ} :
    (pending S j b).length = (S.getD j []).length - b + (S.drop (j + 1)).flatten.length := by
  simp [pending]

variable {d : VringDesc} {l : List (ℕ × VringDesc)} {i w n : ℕ}

/-- A piece of the current descriptor comes off the front. -/
theorem room_split (h : w + n ≤ d.len) :
    room d w l = range' (d.addr + w) n ++ room d (w + n) l := by
  have hlen : d.len - w = n + (d.len - (w + n)) := by omega
  rw [room, room, ← append_assoc, hlen, ← range'_append_1, add_assoc]

theorem room_full : room d d.len l = buffers l := by simp [room]

theorem room_zero : room d 0 l = buffers ((i, d) :: l) := by simp [room]

namespace RxCursor

theorem copy_eq {c : RxCursor} {buffer : List UInt8} {desc : VringDesc}
    (hlen : desc.len < 2 ^ 32) (hw : c.descWritten ≤ desc.len) :
    c.copy buffer desc = min (buffer.length - c.bufWritten) (desc.len - c.descWritten) := by
  have hsub : (desc.len + (2 ^ 64 - c.descWritten)) % 2 ^ 64 = desc.len - c.descWritten := by omega
  rw [copy, hsub]

end RxCursor

/-! ### The copy loop -/

variable {p : ℕ × VringDesc}

section Rx

variable {e₀ e : Emul} {v : Vring} {S : List (List UInt8)} {first : ℤ}
  {l₀ l : List (ℕ × VringDesc)} {d : VringDesc} {j : ℕ} {c : RxCursor}

/-- The chain is long enough, or it says where it ends in the one way that the loop
recognises. A chain that is filled exactly is left in time unless empty buffers
follow. -/
def Fits (S : List (List UInt8)) (l : List (ℕ × VringDesc)) (need capacity later : ℕ) : Prop :=
  (∀ p ∈ l.getLast?, p.2.flags = 0) ∨ need < capacity ∨
    need = capacity ∧ ∀ buffer ∈ S.drop later, buffer ≠ []

/-- Where the copy loop is: `e₀`, `l₀` are the device and the chain at the start,
`d` and `l` the current descriptor and those behind it, `j` the current buffer. -/
structure RxAt (e₀ : Emul) (v : Vring) (S : List (List UInt8)) (first : ℤ)
    (l₀ : List (ℕ × VringDesc)) (j : ℕ) (d : VringDesc) (l : List (ℕ × VringDesc))
    (c : RxCursor) (e : Emul) : Prop where
  walk : Emul.Walk e₀ v c.descIdx ((c.descIdx, d) :: l)
  mem_chain : ∀ p ∈ (c.descIdx, d) :: l, p ∈ l₀
  currentBuf : c.currentBuf = first + j
  j_lt : j < S.length
  desc_le : c.descWritten ≤ d.len
  buf_le : c.bufWritten ≤ (S.getD j []).length
  rest : e = { e₀ with mem := e.mem }
  frame : ∀ a, a ∉ buffers l₀ → e.mem a = e₀.mem a
  scattered : scatter e.mem (room d c.descWritten l) (pending S j c.bufWritten) =
    scatter e₀.mem (buffers l₀) S.flatten
  total : c.totWritten + min (room d c.descWritten l).length (pending S j c.bufWritten).length =
    min (buffers l₀).length S.flatten.length
  fits : Fits S ((c.descIdx, d) :: l) (pending S j c.bufWritten).length
    (room d c.descWritten l).length (j + 1)

/-- The packet has been copied. -/
def RxDone (e₀ : Emul) (S : List (List UInt8)) (l₀ : List (ℕ × VringDesc)) (tot : ℕ) (e : Emul) :
    Prop :=
  tot = min (buffers l₀).length S.flatten.length ∧
    e = { e₀ with mem := scatter e₀.mem (buffers l₀) S.flatten }

variable (h : RxAt e₀ v S first l₀ j d l c e) (hcopied : c.bufWritten = (S.getD j []).length)

namespace RxAt

include h

theorem done (hend : room d c.descWritten l = [] ∨ pending S j c.bufWritten = []) :
    RxDone e₀ S l₀ c.totWritten e := by
  have hscattered := h.scattered
  have htotal := h.total
  refine ⟨?_, ?_⟩
  · rcases hend with hroom | hpending
    · rw [hroom] at htotal
      simpa using htotal
    · rw [hpending] at htotal
      simpa using htotal
  · have hmem : e.mem = scatter e₀.mem (buffers l₀) S.flatten := by
      rw [← hscattered]
      rcases hend with hroom | hpending
      · rw [hroom, scatter_nil_left]
      · rw [hpending, scatter_nil_right]
    rw [← hmem]
    exact h.rest

/-- The descriptor is read as it was at the start. -/
theorem read (hapart : ∀ p ∈ l₀, ∀ a ∈ e₀.entry v p.1, a ∉ buffers l₀) :
    e.ringDesc v c.descIdx = .ok d := by
  have hram : e.ram = e₀.ram := by rw [h.rest]
  have hin := h.mem_chain (c.descIdx, d) (mem_cons_self ..)
  rw [Emul.ringDesc_congr hram fun a ha => h.frame a (hapart _ hin a ha)]
  exact h.walk.head.2

theorem room_subset {a : ℕ} (ha : a ∈ room d c.descWritten l) : a ∈ buffers l₀ := by
  have hle := h.desc_le
  have hmem : a ∈ buffers ((c.descIdx, d) :: l) := by
    rw [← room_zero, room_split (n := c.descWritten) (by omega), Nat.zero_add]
    exact mem_append_right _ ha
  rw [buffers, mem_flatMap] at hmem ⊢
  obtain ⟨p, hp, hap⟩ := hmem
  exact ⟨p, h.mem_chain p hp, hap⟩

/-- A piece is copied. -/
theorem advance (hbuf : ∀ p ∈ l₀, p.2.Buffered e₀.ram)
    (hb : c.bufWritten + n ≤ (S.getD j []).length) (hw : c.descWritten + n ≤ d.len) :
    RxAt e₀ v S first l₀ j d l (c.advance n)
      (e.vmGuestWriteMem (d.addr + c.descWritten) (((S.getD j []).drop c.bufWritten).take n)) := by
  have hram : e.ram = e₀.ram := by rw [h.rest]
  have hin := h.mem_chain (c.descIdx, d) (mem_cons_self ..)
  have hlen : (((S.getD j []).drop c.bufWritten).take n).length = n := by
    rw [length_take, length_drop]
    omega
  have htouch : touched e.ram (d.addr + c.descWritten) n =
      range' (d.addr + c.descWritten) n := by
    rw [hram]
    exact (hbuf _ hin).touch hw
  have hroom := room_split (l := l) hw
  have hpending := pending_split S j c.bufWritten n
  have hroomlen : (room d c.descWritten l).length =
      n + (room d (c.descWritten + n) l).length := by
    rw [hroom, length_append, length_range']
  have hpendinglen : (pending S j c.bufWritten).length =
      n + (pending S j (c.bufWritten + n)).length := by
    rw [hpending, length_append, hlen]
  have hmem : (e.vmGuestWriteMem (d.addr + c.descWritten)
      (((S.getD j []).drop c.bufWritten).take n)).mem =
      scatter e.mem (range' (d.addr + c.descWritten) n)
        (((S.getD j []).drop c.bufWritten).take n) := by
    rw [Emul.vmGuestWriteMem, hlen, htouch]
  refine ⟨h.walk, h.mem_chain, h.currentBuf, h.j_lt, hw, hb, ?_, ?_, ?_, ?_, ?_⟩
  · rw [Emul.vmGuestWriteMem, h.rest]
  · intro a ha
    rw [hmem, scatter_of_notMem, h.frame a ha]
    intro hin'
    refine ha (h.room_subset ?_)
    rw [hroom]
    exact mem_append_left _ hin'
  · rw [hmem, ← h.scattered, hroom, hpending, scatter_append (by rw [length_range', hlen])]
    rfl
  · have htotal := h.total
    change c.totWritten + n + min (room d (c.descWritten + n) l).length
      (pending S j (c.bufWritten + n)).length = _
    omega
  · rcases h.fits with hlast | hlt | ⟨heq, hne⟩
    · exact .inl hlast
    · refine .inr (.inl ?_)
      change (pending S j (c.bufWritten + n)).length < (room d (c.descWritten + n) l).length
      omega
    · refine .inr (.inr ⟨?_, hne⟩)
      change (pending S j (c.bufWritten + n)).length = (room d (c.descWritten + n) l).length
      omega

omit h

/-- The current descriptor is full and another one follows. -/
theorem nextDesc (h : RxAt e₀ v S first l₀ j d (p :: l) c e) (hfull : c.descWritten = d.len) :
    RxAt e₀ v S first l₀ j p.2 l { c with descIdx := d.next, descWritten := 0 } e := by
  obtain ⟨-, hwalk⟩ := h.walk.tail
  obtain ⟨i, d'⟩ := p
  obtain ⟨rfl, -⟩ := hwalk.head
  have hroom : room d c.descWritten ((d.next, d') :: l) = room d' 0 l := by
    rw [hfull, room_full, room_zero]
  refine ⟨hwalk, fun q hq => h.mem_chain q (mem_cons_of_mem _ hq), h.currentBuf, h.j_lt,
    Nat.zero_le _, h.buf_le, h.rest, h.frame, ?_, ?_, ?_⟩
  · rw [← h.scattered, hroom]
  · rw [← h.total, hroom]
  have hfits := h.fits
  rw [hroom] at hfits
  rcases hfits with hlast | hrest
  · exact .inl fun q hq => hlast q hq
  · exact .inr hrest

/-- The chain is full and does not say so: nothing is left to copy. -/
theorem exhausted (h : RxAt e₀ v S first l₀ j d [] c e) (hfull : c.descWritten = d.len)
    (hflags : d.flags ≠ 0) : c.bufWritten = (S.getD j []).length ∧ j + 1 = S.length := by
  have hroom : (room d c.descWritten []).length = 0 := by
    rw [hfull, room_full]
    rfl
  have hlen := length_pending (S := S) (j := j) (b := c.bufWritten)
  have hle := h.buf_le
  have hlt := h.j_lt
  rcases h.fits with hlast | hneed | ⟨hneed, hne⟩
  · exact absurd (hlast (c.descIdx, d) rfl) hflags
  · omega
  refine ⟨by omega, ?_⟩
  by_contra hj
  have hdrop : S.drop (j + 1) ≠ [] := by
    rw [Ne, drop_eq_nil_iff]
    omega
  obtain ⟨buffer, rest, hcons⟩ := exists_cons_of_ne_nil hdrop
  have hpos : buffer ≠ [] := hne buffer (by rw [hcons]; exact mem_cons_self ..)
  have hlenpos := length_pos_of_ne_nil hpos
  rw [hcons, flatten_cons, length_append] at hlen
  omega

include h hcopied

/-- The current buffer is copied and another one follows. -/
theorem nextBuf (hlt : j + 1 < S.length) :
    RxAt e₀ v S first l₀ (j + 1) d l { c with currentBuf := c.currentBuf + 1, bufWritten := 0 }
      e := by
  have hpending : pending S j c.bufWritten = pending S (j + 1) 0 := by rw [hcopied, pending_done]
  have hcur := h.currentBuf
  refine ⟨h.walk, h.mem_chain, ?_, hlt, h.desc_le, Nat.zero_le _, h.rest, h.frame, ?_, ?_, ?_⟩
  · push_cast
    omega
  · rw [← h.scattered, hpending]
  · rw [← h.total, hpending]
  have hfits := h.fits
  rw [hpending] at hfits
  rcases hfits with hlast | hneed | ⟨hneed, hne⟩
  · exact .inl hlast
  · exact .inr (.inl hneed)
  · refine .inr (.inr ⟨hneed, fun buffer hin => hne buffer ?_⟩)
    rw [← drop_drop] at hin
    exact mem_of_mem_drop hin

/-- The last buffer is copied. -/
theorem copied (hlast : j + 1 = S.length) : RxDone e₀ S l₀ c.totWritten e := by
  refine h.done (.inr ?_)
  rw [hcopied, pending_done, pending_zero, hlast, drop_length]
  rfl

end RxAt

/-- The loop goes on with buffer `j'`, or there is no buffer `j'` and all is copied. -/
def RxGoes (e₀ : Emul) (v : Vring) (S : List (List UInt8)) (first : ℤ)
    (l₀ : List (ℕ × VringDesc)) (j : ℕ) (d : VringDesc) (l : List (ℕ × VringDesc))
    (c : RxCursor) (e : Emul) : Prop :=
  c.currentBuf = first + j ∧
    (j = S.length ∧ RxDone e₀ S l₀ c.totWritten e ∨ RxAt e₀ v S first l₀ j d l c e)

include h hcopied in
theorem RxAt.goes_on : RxGoes e₀ v S first l₀ (j + 1) d l (c.nextBuf (S.getD j [])) e := by
  have hcur := h.currentBuf
  have hlt := h.j_lt
  rw [RxCursor.nextBuf, if_pos hcopied]
  refine ⟨?_, ?_⟩
  · push_cast
    omega
  · by_cases hlast : j + 1 = S.length
    · exact .inl ⟨hlast, h.copied hcopied hlast⟩
    · exact .inr (h.nextBuf hcopied (by omega))

variable {source : ℤ → List UInt8} (hapart : ∀ p ∈ l₀, ∀ a ∈ e₀.entry v p.1, a ∉ buffers l₀)
  (hbuf : ∀ p ∈ l₀, p.2.Buffered e₀.ram)
  (hsource : ∀ i < S.length, source (first + i) = S.getD i [])

include h hapart hbuf hsource

/-- **One round of the copy loop.** It leaves with everything copied, or finishes
the current buffer, or finishes the current descriptor inside a buffer. -/
theorem rxRound_at (more : ℤ → Bool) :
    (∃ tot e', rxRound v source more (c, e) = .ok (.inr (tot, e')) ∧ RxDone e₀ S l₀ tot e') ∨
    ∃ j' d' l' c' e',
      rxRound v source more (c, e) =
        .ok (if more c'.currentBuf then .inl (c', e') else .inr (c'.totWritten, e')) ∧
      RxGoes e₀ v S first l₀ j' d' l' c' e' ∧
      (j' = j + 1 ∧ l'.length ≤ l.length ∨
        j' = j ∧ l'.length < l.length ∧ room d' c'.descWritten l' = buffers l ∧
          d.len - c.descWritten < (S.getD j []).length - c.bufWritten) := by
  have hdescle := h.desc_le
  have hbufle := h.buf_le
  let n := min ((S.getD j []).length - c.bufWritten) (d.len - c.descWritten)
  let e1 := e.vmGuestWriteMem (d.addr + c.descWritten) (((S.getD j []).drop c.bufWritten).take n)
  have h1 : RxAt e₀ v S first l₀ j d l (c.advance n) e1 := h.advance hbuf (by omega) (by omega)
  have hcopy : c.copy (S.getD j []) d = n :=
    RxCursor.copy_eq (Emul.len_lt_of_ringDesc h.walk.head.2) hdescle
  have hround : rxRound v source more (c, e) =
      ((c.advance n).nextDesc d).elim (.ok (.inr ((c.advance n).totWritten, e1)))
        fun c => .ok (if more (c.nextBuf (S.getD j [])).currentBuf
          then .inl (c.nextBuf (S.getD j []), e1)
          else .inr ((c.nextBuf (S.getD j [])).totWritten, e1)) := by
    simp only [rxRound, h.read hapart, ok_bind, h.currentBuf, hsource j h.j_lt, hcopy]
    cases (c.advance n).nextDesc d <;> rfl
  rw [hround]
  by_cases hfull : (c.advance n).descWritten = d.len
  · by_cases hflags : d.flags = 0
    · left
      rw [RxCursor.nextDesc, if_pos hfull, if_pos (VringDesc.tooShort_iff.mpr hflags)]
      refine ⟨_, _, rfl, h1.done (.inl ?_)⟩
      rw [hfull, room_full]
      cases l with
      | nil => rfl
      | cons p l =>
        have hnext := h.walk.tail.1
        rw [VringDesc.hasNext_of_flags hflags] at hnext
        cases hnext
    · right
      rw [RxCursor.nextDesc, if_pos hfull, if_neg (by rwa [VringDesc.tooShort_iff])]
      cases l with
      | nil =>
        obtain ⟨hcopied, hlast⟩ := h1.exhausted hfull hflags
        have hgoes := h1.goes_on hcopied
        refine ⟨j + 1, d, [], _, e1, rfl, ⟨?_, .inl ⟨hlast, ?_⟩⟩, .inl ⟨rfl, le_rfl⟩⟩
        · rw [← hgoes.1, RxCursor.nextBuf, RxCursor.nextBuf, if_pos hcopied, if_pos hcopied]
        · rw [RxCursor.nextBuf, if_pos hcopied]
          exact h1.copied hcopied hlast
      | cons p l =>
        have h2 := h1.nextDesc hfull
        by_cases hcopied : (c.advance n).bufWritten = (S.getD j []).length
        · exact ⟨j + 1, p.2, l, _, e1, rfl, h2.goes_on hcopied, .inl ⟨rfl, by simp⟩⟩
        refine ⟨j, p.2, l, _, e1, rfl, ?_, .inr ⟨rfl, by simp, ?_, ?_⟩⟩
        · rw [RxCursor.nextBuf, if_neg hcopied]
          exact ⟨h2.currentBuf, .inr h2⟩
        · rw [RxCursor.nextBuf, if_neg hcopied, room_zero]
        · change c.bufWritten + n ≠ (S.getD j []).length at hcopied
          omega
  · right
    rw [RxCursor.nextDesc, if_neg hfull]
    have hcopied : (c.advance n).bufWritten = (S.getD j []).length := by
      change c.descWritten + n ≠ d.len at hfull
      change c.bufWritten + n = (S.getD j []).length
      omega
    exact ⟨j + 1, d, l, _, e1, rfl, h1.goes_on hcopied, .inl ⟨rfl, le_rfl⟩⟩

omit h hapart hbuf hsource

/-- A chain that the copy loop respects, for the buffers `S`. -/
structure RxChain (e : Emul) (v : Vring) (S : List (List UInt8)) (head : ℕ)
    (l : List (ℕ × VringDesc)) : Prop where
  walk : Emul.Walk e v head l
  apart : ∀ p ∈ l, ∀ a ∈ e.entry v p.1, a ∉ buffers l
  buffered : ∀ p ∈ l, p.2.Buffered e.ram
  fits : Fits S l S.flatten.length (buffers l).length 1
  total_lt : S.flatten.length < 2 ^ 32

variable {head fuel : ℕ}

theorem RxChain.start (h : RxChain e₀ v S head ((head, d) :: l)) (hS : S ≠ []) (first : ℤ) :
    RxAt e₀ v S first ((head, d) :: l) 0 d l ⟨0, 0, 0, first, head⟩ e₀ := by
  have hroom : room d 0 l = buffers ((head, d) :: l) := room_zero
  have hpending : pending S 0 0 = S.flatten := by rw [pending_zero, drop_zero]
  refine ⟨h.walk, fun p hp => hp, by simp, length_pos_of_ne_nil hS, Nat.zero_le _,
    Nat.zero_le _, rfl, fun a _ => rfl, ?_, ?_, ?_⟩
  · rw [hroom, hpending]
  · rw [hroom, hpending, Nat.zero_add]
  · rw [hpending]
    exact h.fits

include h hapart hbuf hsource in
/-- **The copy loop** from a place from which `more` tells whether there is another
buffer. -/
theorem rxLoop_done {more : ℤ → Bool} (least : ℕ)
    (hmore : ∀ i, least ≤ i → i ≤ S.length → more (first + i) = decide (i < S.length))
    (hleast : least ≤ j) (hfuel : S.length - j + l.length < fuel) :
    ∃ r, doLoop .noReturn (rxRound v source more) fuel (c, e) = .ok r ∧
      RxDone e₀ S l₀ r.1 r.2 := by
  let I : ℕ → RxCursor × Emul → Prop := fun m s =>
    ∃ j d l, least ≤ j ∧ m = S.length - j + l.length ∧ RxAt e₀ v S first l₀ j d l s.1 s.2
  refine doLoop_returns (I := I) ?_ ⟨j, d, l, hleast, rfl, h⟩ hfuel
  rintro m ⟨c, e⟩ ⟨j, d, l, hj, rfl, hat⟩
  have hlt := hat.j_lt
  rcases rxRound_at hat hapart hbuf hsource more with
    ⟨tot, e', hr, hdone⟩ | ⟨j', d', l', c', e', hr, ⟨hcur, hgoes⟩, hnext⟩
  · exact .inr ⟨(tot, e'), hr, hdone⟩
  have hm : more c'.currentBuf = decide (j' < S.length) := by
    rw [hcur]
    exact hmore j' (by omega) (by omega)
  rw [hm] at hr
  rcases hgoes with ⟨hend, hdone⟩ | hat'
  · rw [if_neg (by simp [hend])] at hr
    exact .inr ⟨(c'.totWritten, e'), hr, hdone⟩
  · have hlt' := hat'.j_lt
    rw [if_pos (by simpa using hlt')] at hr
    exact .inl ⟨S.length - j' + l'.length, (c', e'), by omega, hr,
      j', d', l', by omega, rfl, hat'⟩

/-- The console's copy loop. -/
theorem conLoop_done {buf : List UInt8} (h : RxChain e₀ v [buf] head l₀)
    (hfuel : l₀.length < fuel) :
    ∃ r, doLoop .noReturn (rxRound v (fun _ => buf) fun currentBuf => currentBuf < 1) fuel
        (⟨0, 0, 0, 0, head⟩, e₀) = .ok r ∧
      RxDone e₀ [buf] l₀ r.1 r.2 := by
  obtain ⟨⟨i, d⟩, l, rfl⟩ := exists_cons_of_ne_nil h.walk.ne_nil
  obtain ⟨rfl, -⟩ := h.walk.head
  refine rxLoop_done (h.start (by simp) 0) h.apart h.buffered ?_ 0 ?_ le_rfl ?_
  · intro i hi
    obtain rfl : i = 0 := by simpa using hi
    rfl
  · intro i _ hi
    simp only [length_singleton, zero_add]
    rw [decide_eq_decide]
    omega
  · simpa [Nat.add_comm] using hfuel

/-- The buffers of a network packet with the virtio header in front. -/
def netBuffers (bufs : List (List UInt8)) : List (List UInt8) := List.replicate netHdrSize 0 :: bufs

/-- The header lies in the first descriptor, or the chain ends with it. -/
def HeaderFits (l : List (ℕ × VringDesc)) : Prop :=
  ∀ p ∈ l.head?, netHdrSize ≤ p.2.len ∨ buffers l.tail = []

/-- The network device's copy loop. -/
theorem netLoop_done {bufs : List (List UInt8)} (h : RxChain e₀ v (netBuffers bufs) head l₀)
    (hheader : HeaderFits l₀) (hnum : bufs.length < 2 ^ 32)
    (hfuel : bufs.length + l₀.length < fuel) :
    ∃ r, doLoop .noReturn (rxRound v (netSource bufs) (netMore bufs)) fuel
        (⟨0, 0, 0, -1, head⟩, e₀) = .ok r ∧
      RxDone e₀ (netBuffers bufs) l₀ r.1 r.2 := by
  obtain ⟨⟨i, d⟩, l, rfl⟩ := exists_cons_of_ne_nil h.walk.ne_nil
  obtain ⟨rfl, -⟩ := h.walk.head
  have hlen : (netBuffers bufs).length = bufs.length + 1 := rfl
  have hsource : ∀ j < (netBuffers bufs).length,
      netSource bufs (-1 + j) = (netBuffers bufs).getD j [] := by
    intro j _
    cases j with
    | zero => rfl
    | succ j =>
      have hpos : (-1 + ((j + 1 : ℕ) : ℤ)) = j := by omega
      rw [hpos]
      rfl
  have hmore : ∀ j, 1 ≤ j → j ≤ (netBuffers bufs).length →
      netMore bufs (-1 + j) = decide (j < (netBuffers bufs).length) := by
    intro j hj hle
    rw [netMore, decide_eq_decide, hlen]
    omega
  have hstart := h.start (cons_ne_nil _ _) (-1)
  obtain ⟨fuel, rfl⟩ : ∃ n, fuel = n + 1 := ⟨fuel - 1, by omega⟩
  rcases rxRound_at hstart h.apart h.buffered hsource (netMore bufs) with
    ⟨tot, e', hr, hdone⟩ | ⟨j', d', l', c', e', hr, ⟨hcur, hgoes⟩, hnext⟩
  · exact ⟨(tot, e'), doLoop_exit hr, hdone⟩
  rcases hnext with ⟨rfl, hl⟩ | ⟨rfl, hl, hroom, hshort⟩
  · rw [hcur, hmore _ (by omega) (by omega)] at hr
    rcases hgoes with ⟨hend, hdone⟩ | hat
    · rw [if_neg (by simp [← hend])] at hr
      exact ⟨_, doLoop_exit hr, hdone⟩
    · rw [if_pos (by simpa using hat.j_lt)] at hr
      rw [doLoop_next hr]
      refine rxLoop_done hat h.apart h.buffered hsource 1 hmore (by omega) ?_
      rw [length_cons] at hfuel
      omega
  · -- the header is not complete: the loop is left, and there is no more room
    have hleave : netMore bufs c'.currentBuf = false := by
      rw [netMore, decide_eq_false_iff_not]
      omega
    rw [hleave] at hr
    refine ⟨_, doLoop_exit hr, ?_⟩
    rcases hgoes with ⟨hend, -⟩ | hat
    · cases hend
    refine hat.done (.inl ?_)
    rw [hroom]
    rcases hheader _ rfl with hfit | hnil
    · change d.len - 0 < netHdrSize - 0 at hshort
      change netHdrSize ≤ d.len at hfit
      omega
    · exact hnil

end Rx

/-! ### Collecting a packet -/

section Tx

variable {e : Emul} {v : Vring} {l : List (ℕ × VringDesc)} {len : ℕ} {bytes : List UInt8}

/-- A chain that ends and whose buffers are guest memory. -/
structure TxChain (e : Emul) (v : Vring) (head : ℕ) (l : List (ℕ × VringDesc)) : Prop where
  walk : Emul.Walk e v head l
  ended : ∀ p ∈ l.getLast?, p.2.hasNext = false
  buffered : ∀ p ∈ l, p.2.Buffered e.ram

theorem TxChain.tail {j : ℕ} (h : TxChain e v i ((j, d) :: p :: l)) :
    d.hasNext = true ∧ TxChain e v d.next (p :: l) := by
  obtain ⟨hnext, hwalk⟩ := h.walk.tail
  exact ⟨hnext, hwalk, fun q hq => h.ended q hq, fun q hq => h.buffered q (mem_cons_of_mem _ hq)⟩

theorem TxChain.single {j : ℕ} (h : TxChain e v i [(j, d)]) :
    d.hasNext = false := h.ended (j, d) rfl

/-- What the guest has put in the chain. -/
def chainBytes (e : Emul) (l : List (ℕ × VringDesc)) : List UInt8 := (buffers l).map e.mem

@[simp] theorem chainBytes_nil : chainBytes e [] = [] := rfl

theorem chainBytes_cons :
    chainBytes e (p :: l) = (range' p.2.addr p.2.len).map e.mem ++ chainBytes e l := by
  simp [chainBytes]

/-- Bytes behind the end of a packet make it longer. -/
theorem content_scatter {buffer : Bytes} :
    content (scatter buffer (range' len bytes.length) bytes) (len + bytes.length) =
      content buffer len ++ bytes := by
  have hrange : range (len + bytes.length) = range len ++ range' len bytes.length := by
    rw [range_eq_range', range_eq_range', ← range'_append_1, Nat.zero_add]
  rw [content, hrange, map_append, map_scatter nodup_range' (by simp),
    map_scatter_of_disjoint]
  · rfl
  · intro a ha
    simp only [mem_range, mem_range'_1] at ha ⊢
    omega

theorem copyIn_eq {size : ℕ} (buffer : Bytes) (h : len + bytes.length ≤ size) :
    ∃ buffer', copyIn size buffer len bytes = .ok buffer' ∧
      content buffer' (len + bytes.length) = content buffer len ++ bytes := by
  refine ⟨_, ?_, content_scatter⟩
  rw [copyIn, if_neg (by omega)]

theorem take_drop_range' (a n k m : ℕ) :
    ((range' a n).drop k).take m = range' (a + k) (min m (n - k)) := by
  rw [drop_range', Nat.mul_one]
  rcases le_total m (n - k) with h | h
  · rw [take_range'_of_length_ge h, min_eq_left h]
  · rw [take_range'_of_length_le h, min_eq_right h]

/-- One round of the network device's loop. -/
theorem netGatherRound_eq {p : Packet} (hd : e.ringDesc v p.descIdx = .ok d)
    (hbuf : d.Buffered e.ram) (hlen : p.len ≤ bufSize) :
    ∃ buffer len, netGatherRound e v p =
        .ok (if d.hasNext then
          .inl ⟨d.next, len, p.skipped + min (netHdrSize - p.skipped) d.len, buffer⟩
        else .inr (len, buffer)) ∧
      len = p.len + min (bufSize - p.len) (d.len - (netHdrSize - p.skipped)) ∧
      content buffer len = content p.buffer p.len ++
        (((range' d.addr d.len).map e.mem).drop (netHdrSize - p.skipped)).take
          (bufSize - p.len) := by
  let k := netHdrSize - p.skipped
  let n := min (bufSize - p.len) (d.len - k)
  let bytes := (((range' d.addr d.len).map e.mem).drop k).take (bufSize - p.len)
  have hskip : (if p.skipped < netHdrSize then min (netHdrSize - p.skipped) d.len else 0) =
      min k d.len := by
    split <;> omega
  have hn : min (bufSize - p.len) (d.len - min k d.len) = n := by omega
  have hbytes : bytes.length = n := by simp [bytes, n]
  have hread : e.vmGuestReadMem (d.addr + min k d.len) n = bytes := by
    change _ = (((range' d.addr d.len).map e.mem).drop k).take (bufSize - p.len)
    rw [Emul.vmGuestReadMem, hbuf.touch (by omega), ← map_drop, ← map_take,
      take_drop_range']
    change _ = map e.mem (range' (d.addr + k) n)
    rcases le_total k d.len with hk | hk
    · rw [min_eq_left hk]
    · have hzero : n = 0 := by omega
      rw [hzero]
      rfl
  obtain ⟨buffer, hcopy, hcontent⟩ :=
    copyIn_eq p.buffer (show p.len + bytes.length ≤ bufSize by omega)
  rw [hbytes] at hcontent
  refine ⟨buffer, p.len + n, ?_, rfl, hcontent⟩
  rw [netGatherRound, hd]
  simp only [hskip, hn, hread, hcopy, ok_bind]
  split <;> rfl

/-- The rest of a packet: what the chain holds behind the header, as far as there is
space. -/
theorem take_drop_append {α : Type} {x y : List α} {k m : ℕ} :
    ((x ++ y).drop k).take m = (x.drop k).take m ++ (y.drop (k - min k x.length)).take
      (m - min m (x.length - k)) := by
  rw [drop_append, take_append, length_drop]
  congr 2
  · omega
  · congr 1
    omega

/-- **The network device's loop** collects what the chain holds, without the header
and cut at the size of the buffer. -/
theorem netGather_done : ∀ {l : List (ℕ × VringDesc)} {p : Packet} {fuel : ℕ},
    TxChain e v p.descIdx l → p.len ≤ bufSize → l.length ≤ fuel →
    ∃ r, doLoop .noReturn (netGatherRound e v) fuel p = .ok r ∧
      content r.2 r.1 = content p.buffer p.len ++
        ((chainBytes e l).drop (netHdrSize - p.skipped)).take (bufSize - p.len) := by
  intro l
  induction l with
  | nil => intro p fuel h; exact absurd rfl h.walk.ne_nil
  | cons q l ih =>
    obtain ⟨i, d⟩ := q
    intro p fuel h hlen hfuel
    obtain ⟨rfl, hd⟩ := h.walk.head
    obtain ⟨fuel, rfl⟩ : ∃ n, fuel = n + 1 := ⟨fuel - 1, by simp at hfuel; omega⟩
    obtain ⟨buffer, len, hround, hlen', hcontent⟩ :=
      netGatherRound_eq hd (h.buffered _ (mem_cons_self ..)) hlen
    have hsize : ((range' d.addr d.len).map e.mem).length = d.len := by simp
    rw [chainBytes_cons, take_drop_append, hsize, ← append_assoc, ← hcontent]
    cases l with
    | nil =>
      rw [h.single] at hround
      exact ⟨(len, buffer), doLoop_exit hround, by simp⟩
    | cons q' l =>
      obtain ⟨hnext, htail⟩ := h.tail
      rw [hnext] at hround
      rw [doLoop_next hround]
      obtain ⟨r, hr, hres⟩ := ih (p := ⟨d.next, len, _, buffer⟩) htail (by simp only; omega)
        (by simpa using hfuel)
      have hskipped : netHdrSize - (p.skipped + min (netHdrSize - p.skipped) d.len) =
          netHdrSize - p.skipped - min (netHdrSize - p.skipped) d.len := by omega
      have hspace : bufSize - len = bufSize - p.len -
          min (bufSize - p.len) (d.len - (netHdrSize - p.skipped)) := by omega
      refine ⟨r, hr, ?_⟩
      rw [hres, hskipped, hspace]

/-- **The console's loop** collects what the chain holds, if that fits. -/
theorem conGather_done : ∀ {l : List (ℕ × VringDesc)} {p : Packet} {fuel : ℕ},
    TxChain e v p.descIdx l → p.len + (buffers l).length ≤ vuartBuflen → l.length ≤ fuel →
    ∃ r, doLoop .noReturn (conGatherRound e v) fuel p = .ok r ∧
      r.1 = p.len + (buffers l).length ∧
      content r.2 r.1 = content p.buffer p.len ++ chainBytes e l := by
  intro l
  induction l with
  | nil => intro p fuel h; exact absurd rfl h.walk.ne_nil
  | cons q l ih =>
    obtain ⟨i, d⟩ := q
    intro p fuel h hlen hfuel
    obtain ⟨rfl, hd⟩ := h.walk.head
    obtain ⟨fuel, rfl⟩ : ∃ n, fuel = n + 1 := ⟨fuel - 1, by simp at hfuel; omega⟩
    have hsplit : (buffers ((p.descIdx, d) :: l)).length = d.len + (buffers l).length := by simp
    have hread : e.vmGuestReadMem d.addr d.len = (range' d.addr d.len).map e.mem := by
      have htouch := (h.buffered _ (mem_cons_self ..)).touch (w := 0) (n := d.len) (by simp)
      rw [Nat.add_zero] at htouch
      rw [Emul.vmGuestReadMem, htouch]
    have hsize : ((range' d.addr d.len).map e.mem).length = d.len := by simp
    obtain ⟨buffer, hcopy, hcontent⟩ := copyIn_eq p.buffer
      (show p.len + ((range' d.addr d.len).map e.mem).length ≤ vuartBuflen by omega)
    rw [hsize] at hcontent
    have hword : (p.len + d.len) % 2 ^ 32 = p.len + d.len := by
      have : vuartBuflen = 4088 := rfl
      omega
    have hround : conGatherRound e v p = .ok (if d.hasNext then
        .inl ⟨d.next, p.len + d.len, p.skipped, buffer⟩ else .inr (p.len + d.len, buffer)) := by
      rw [conGatherRound, hd, ok_bind, hread, hcopy, hword]
      split <;> rfl
    rw [chainBytes_cons, ← append_assoc, ← hcontent, hsplit]
    cases l with
    | nil =>
      rw [h.single] at hround
      exact ⟨(p.len + d.len, buffer), doLoop_exit hround, by simp, by simp⟩
    | cons q' l =>
      obtain ⟨hnext, htail⟩ := h.tail
      rw [hnext] at hround
      rw [doLoop_next hround]
      obtain ⟨r, hr, hr1, hres⟩ := ih (p := ⟨d.next, p.len + d.len, _, buffer⟩) htail
        (by simp only; omega) (by simpa using hfuel)
      exact ⟨r, hr, by rw [hr1, Nat.add_assoc], hres⟩

end Tx

end SeL4Kernel.Virtio
