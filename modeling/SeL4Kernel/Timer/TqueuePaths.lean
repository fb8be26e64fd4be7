import SeL4Kernel.Timer.Tqueue

/-!
# One timeout

For one identifier an update is a path: its timeout is run when it is due and goes on to the next
period, and callbacks register and cancel it (`Path`). What a path says about the callbacks that
were run, and about the timeout at the end, is `Path.handled`.
-/

namespace SeL4Kernel.Timer

open List

variable {c id : ℕ} {a b r : Option Timeout} {log log' : List Event} {timeout : Timeout} {e : Event}

/-! ### One timeout -/

/-- The timeout when its callback has been run. -/
def Timeout.next (timeout : Timeout) : Option Timeout :=
  if timeout.period > 0 then
    some { timeout with absTime := timeout.absTime + timeout.period }
  else none

/-- The timeouts that are run up to the time `c`: once for each period. -/
def deadlines (c : ℕ) : Option Timeout → List Timeout
  | none => []
  | some timeout =>
    if c < timeout.absTime then []
    else if timeout.period = 0 then [timeout]
    else (List.range ((c - timeout.absTime) / timeout.period + 1)).map fun i =>
      { timeout with absTime := timeout.absTime + i * timeout.period }

/-- The first deadline after the time `c`. -/
def firstAfter (c : ℕ) (timeout : Timeout) : ℕ :=
  timeout.absTime + ((c - timeout.absTime) / timeout.period + 1) * timeout.period

/-- The timeout when all that is due has been run. -/
def after (c : ℕ) : Option Timeout → Option Timeout
  | none => none
  | some timeout =>
    if c < timeout.absTime then some timeout
    else if timeout.period = 0 then none
    else some { timeout with absTime := firstAfter c timeout }

/-- Nothing is due. -/
def Late (c : ℕ) (a : Option Timeout) : Prop := ∀ timeout, a = some timeout → c < timeout.absTime

theorem Late.deadlines_eq (h : Late c a) : deadlines c a = [] := by
  cases a with
  | none => rfl
  | some timeout => exact if_pos (h timeout rfl)

theorem Late.after_eq (h : Late c a) : after c a = a := by
  cases a with
  | none => rfl
  | some timeout => exact if_pos (h timeout rfl)

theorem firstAfter_next (hperiod : 0 < timeout.period)
    (hdue : timeout.absTime + timeout.period ≤ c) :
    (c - timeout.absTime) / timeout.period =
      (c - (timeout.absTime + timeout.period)) / timeout.period + 1 := by
  rw [← Nat.add_div_right _ hperiod]
  congr 1
  omega

/-- A timeout that is due is run once and then as its next period says. -/
theorem deadlines_due (hdue : timeout.absTime ≤ c) :
    deadlines c (some timeout) = timeout :: deadlines c timeout.next := by
  rw [deadlines, if_neg (Nat.not_lt.2 hdue), Timeout.next]
  rcases Nat.eq_zero_or_pos timeout.period with hzero | hpos
  · rw [if_pos hzero, if_neg (by omega)]
    rfl
  rw [if_neg hpos.ne', if_pos hpos, deadlines]
  by_cases hnext : c < timeout.absTime + timeout.period
  · rw [if_pos hnext, Nat.div_eq_of_lt (by omega)]
    simp
  rw [if_neg hnext, if_neg hpos.ne', firstAfter_next hpos (Nat.not_lt.1 hnext),
    range_succ_eq_map, map_cons, map_map]
  congr 1
  · simp
  refine map_congr_left fun i _ => ?_
  simp only [Function.comp_apply, Timeout.mk.injEq, and_true]
  rw [Nat.succ_mul]
  omega

theorem after_due (hdue : timeout.absTime ≤ c) : after c (some timeout) = after c timeout.next := by
  rw [after, if_neg (Nat.not_lt.2 hdue), Timeout.next]
  rcases Nat.eq_zero_or_pos timeout.period with hzero | hpos
  · rw [if_pos hzero, if_neg (by omega)]
    rfl
  rw [if_neg hpos.ne', if_pos hpos, after, firstAfter]
  by_cases hnext : c < timeout.absTime + timeout.period
  · rw [if_pos hnext, Nat.div_eq_of_lt (by omega)]
    simp
  · rw [if_neg hnext, if_neg hpos.ne', firstAfter, firstAfter_next hpos (Nat.not_lt.1 hnext)]
    dsimp only
    rw [Nat.succ_mul ((c - (timeout.absTime + timeout.period)) / timeout.period + 1)]
    congr 2
    omega

/-! ### Paths -/

/-- The timeout of an identifier as the calls of an event leave it. -/
def effect (id : ℕ) : Event → Option (Option Timeout)
  | .ran _ _ => none
  | .registered i timeout => if i = id then some (some timeout) else none
  | .cancelled i => if i = id then some none else none

/-- The callbacks that are run for an identifier. -/
def ranFor (id : ℕ) : Event → Option Timeout
  | .ran i timeout => if i = id then some timeout else none
  | _ => none

/-- What the last call about an identifier leaves. -/
def lastCall (id : ℕ) (log : List Event) : Option (Option Timeout) :=
  (log.filterMap (effect id)).getLast?

/-- The timeouts of an identifier whose callbacks are run. -/
def runs (id : ℕ) (log : List Event) : List Timeout := log.filterMap (ranFor id)

/-- One event, for one identifier. Callbacks register times after `c`. -/
inductive IdStep (c id : ℕ) : Option Timeout → Event → Option Timeout → Prop where
  | ran (timeout : Timeout) : timeout.absTime ≤ c →
      IdStep c id (some timeout) (.ran id timeout) timeout.next
  | call (a : Option Timeout) (e : Event) (b : Option Timeout) : effect id e = some b →
      ranFor id e = none → Late c b → IdStep c id a e b
  | other (a : Option Timeout) (e : Event) : effect id e = none → ranFor id e = none →
      IdStep c id a e a

/-- The events of an update, for one identifier. -/
inductive Path (c id : ℕ) : Option Timeout → List Event → Option Timeout → Prop where
  | nil (a : Option Timeout) : Path c id a [] a
  | cons {a b d : Option Timeout} {e : Event} {log : List Event} :
      IdStep c id a e b → Path c id b log d → Path c id a (e :: log) d

theorem Path.append {d : Option Timeout} (h : Path c id a log b) (h' : Path c id b log' d) :
    Path c id a (log ++ log') d := by
  induction h with
  | nil => exact h'
  | cons hstep _ ih => exact .cons hstep (ih h')

theorem lastCall_append : lastCall id (log ++ log') = (lastCall id log').or (lastCall id log) := by
  unfold lastCall
  rw [filterMap_append, List.getLast?_append]

theorem lastCall_singleton : lastCall id [e] = effect id e := by
  unfold lastCall
  cases h : effect id e with
  | none => rw [filterMap_cons_none h]; rfl
  | some r => rw [filterMap_cons_some h]; rfl

theorem lastCall_cons : lastCall id (e :: log) = (lastCall id log).or (effect id e) := by
  rw [← singleton_append, lastCall_append, lastCall_singleton]

/-- What the events say about an identifier. -/
structure Handled (c id : ℕ) (a : Option Timeout) (log : List Event) (b : Option Timeout) :
    Prop where
  /-- callbacks are run for the deadlines up to `c`, in order -/
  runs : runs id log <+: deadlines c a
  /-- for all of them if no callback cancels or registers the timeout, which then is at its first
  deadline after `c` -/
  undisturbed : lastCall id log = none → Timer.runs id log = deadlines c a ∧ b = after c a
  /-- and otherwise the last call is what counts -/
  called : ∀ r, lastCall id log = some r → b = r

/-- **A path that ends when nothing is due.** -/
theorem Path.handled (h : Path c id a log b) (hb : Late c b) : Handled c id a log b := by
  induction h with
  | nil a =>
    refine ⟨ nil_prefix, fun _ => ⟨hb.deadlines_eq.symm, hb.after_eq.symm⟩, ?_⟩
    intro r hr
    cases hr
  | @cons a a' d e log hstep hpath ih =>
    obtain ⟨hruns, hnone, hsome⟩ := ih hb
    cases hstep with
    | ran timeout hdue =>
      have hcons : runs id (.ran id timeout :: log) = timeout :: runs id log :=
        filterMap_cons_some (if_pos rfl)
      have hlast : lastCall id (.ran id timeout :: log) = lastCall id log := by
        rw [lastCall_cons]
        exact Option.or_none
      refine ⟨?_, ?_, ?_⟩
      · rw [hcons, deadlines_due hdue]
        exact prefix_cons_inj timeout |>.2 hruns
      · intro hl
        obtain ⟨h1, h2⟩ := hnone (hlast ▸ hl)
        rw [hcons, deadlines_due hdue, after_due hdue, h1]
        exact ⟨rfl, h2⟩
      · intro r hr
        exact hsome r (hlast ▸ hr)
    | call _ _ _ heffect hran hlate =>
      have hnil : runs id log = [] := by
        rw [hlate.deadlines_eq] at hruns
        exact prefix_nil.1 hruns
      have hcons : runs id (e :: log) = [] := (filterMap_cons_none hran).trans hnil
      refine ⟨by rw [hcons]; exact nil_prefix, ?_, ?_⟩
      · intro hl
        rw [lastCall_cons, heffect, Option.or_eq_none_iff] at hl
        cases hl.2
      · intro r hr
        rw [lastCall_cons, heffect] at hr
        cases hl : lastCall id log with
        | none =>
          rw [hl] at hr
          rw [(hnone hl).2, hlate.after_eq]
          exact Option.some.inj hr
        | some r' =>
          rw [hl] at hr
          rw [hsome r' hl]
          exact Option.some.inj hr
    | other _ _ heffect hran =>
      have hcons : runs id (e :: log) = runs id log := filterMap_cons_none hran
      have hlast : lastCall id (e :: log) = lastCall id log := by
        rw [lastCall_cons, heffect]
        exact Option.or_none
      exact ⟨by rw [hcons]; exact hruns, by rw [hcons, hlast]; exact hnone,
        by rw [hlast]; exact hsome⟩

/-- Nothing is run for an identifier behind a call about it. -/
theorem Path.quiet (h : Path c id a (log ++ e :: log') b) (hb : Late c b)
    (he : (effect id e).isSome) : runs id log' = [] := by
  induction log generalizing a with
  | nil =>
    cases h with
    | cons hstep hpath =>
      cases hstep with
      | ran => cases he
      | call _ _ _ _ _ hlate =>
        have hruns := (hpath.handled hb).runs
        rw [hlate.deadlines_eq] at hruns
        exact prefix_nil.1 hruns
      | other _ _ heffect _ =>
        rw [heffect] at he
        cases he
  | cons e' log ih =>
    cases h with
    | cons _ hpath => exact ih hpath

/-- An event that is a call, with a time after `c` if it is a registration. -/
def Event.Later (c : ℕ) : Event → Prop
  | .ran _ _ => False
  | .registered _ timeout => c < timeout.absTime
  | .cancelled _ => True

theorem Event.Later.late (h : e.Later c) (hr : effect id e = some r) : Late c r := by
  intro timeout htimeout
  cases e with
  | ran => exact h.elim
  | registered i timeout' =>
    by_cases hi : i = id
    · have heq : some timeout' = r := by simpa [effect, hi] using hr
      rw [← heq] at htimeout
      exact Option.some.inj htimeout ▸ h
    · simp [effect, hi] at hr
  | cancelled i =>
    by_cases hi : i = id
    · have heq : none = r := by simpa [effect, hi] using hr
      rw [← heq] at htimeout
      cases htimeout
    · simp [effect, hi] at hr

theorem Event.Later.ranFor_eq (h : e.Later c) : ranFor id e = none := by
  cases e with
  | ran => exact h.elim
  | registered => rfl
  | cancelled => rfl

theorem lastCall_late (h : ∀ e ∈ log, e.Later c) (hr : lastCall id log = some r) : Late c r := by
  have hmem := mem_of_getLast? hr
  rw [mem_filterMap] at hmem
  obtain ⟨e, he, heffect⟩ := hmem
  exact (h e he).late heffect

/-- The calls of a callback as a path from any timeout. -/
theorem Path.of_calls (h : ∀ e ∈ log, e.Later c) (a : Option Timeout) :
    Path c id a log ((lastCall id log).getD a) := by
  induction log generalizing a with
  | nil => exact .nil a
  | cons e log ih =>
    have he := h e mem_cons_self
    have hlog := ih fun e' he' => h e' (mem_cons_of_mem _ he')
    rw [lastCall_cons]
    cases heffect : effect id e with
    | none =>
      rw [Option.or_none]
      exact .cons (.other a e heffect he.ranFor_eq) (hlog a)
    | some r =>
      have heq : ((lastCall id log).or (some r)).getD a = (lastCall id log).getD r := by
        cases lastCall id log with
        | none => rfl
        | some r' => rfl
      rw [heq]
      exact .cons (.call a e r heffect he.ranFor_eq (he.late heffect)) (hlog r)

end SeL4Kernel.Timer
