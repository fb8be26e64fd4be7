import SeL4Kernel.Sync.BinSem

/-!
# The condition variable

`condition_var.h` of `libsel4sync`: a count of the threads that wait, a flag that a broadcast is
going on, and a notification. A broadcast wakes one thread, and every thread that leaves while
the flag is set wakes the next one.

The lock is the binary semaphore of `Sync.BinSem` with a program counter of its own for every
thread. While a thread is in no function of the condition variable it takes and releases the lock
as it likes, and it calls the functions while it has the lock. Every load, every store and every
system call is a step. `sync_bin_sem_post` returns 0 always, so the errors behind it are left out.

`History` records what has happened and has no influence on it: every call of `sync_cv_wait` gets a
ticket.
-/

namespace SeL4Kernel.CondVar

variable {Thread : Type*} [DecidableEq Thread]

/-- Where a thread is. -/
inductive Pc where
  /-- in no function of the condition variable -/
  | idle
  /-- `sync_cv_wait`: before the load for `waiters++` -/
  | entering
  /-- before the store for `waiters++`, with what was loaded -/
  | adding (waiters : ℤ)
  /-- before `broadcasting = false` -/
  | resetting
  /-- in `sync_bin_sem_post` -/
  | posting
  /-- before `seL4_Wait` -/
  | arriving
  /-- in `seL4_Wait` -/
  | blocked
  /-- behind `seL4_Wait`, in `sync_bin_sem_wait` -/
  | notified
  /-- before the load for `waiters--` -/
  | leaving
  /-- before the store for `waiters--`, with what was loaded -/
  | subtracting (waiters : ℤ)
  /-- before the test of the flag -/
  | testing
  /-- before the test of the count -/
  | counting
  /-- before `seL4_Signal` for the next thread -/
  | relaying
  /-- before `broadcasting = false` of the last thread -/
  | ending
  /-- `sync_cv_signal`: before the test of the count -/
  | signalTest
  /-- before `seL4_Signal` -/
  | signalling
  /-- `sync_cv_broadcast` or `sync_cv_broadcast_release`: before the test of the count -/
  | castTest (release : Bool)
  /-- before `broadcasting = true` -/
  | casting (release : Bool)
  /-- in `sync_bin_sem_post` of `sync_cv_broadcast_release` -/
  | releasing
  /-- before `seL4_Signal` -/
  | castSignal (release : Bool)
  /-- in `sync_bin_sem_post` of `sync_cv_broadcast_release` when nobody waits -/
  | releaseOnly
  deriving DecidableEq, Repr

/-- What has happened. -/
structure History (Thread : Type*) where
  /-- the number of calls of `sync_cv_wait` -/
  clock : ℕ
  /-- the ticket of a thread's last call of `sync_cv_wait` -/
  ticket : Thread → ℕ
  /-- the number of calls when the last broadcast of a thread tested the count -/
  cast : Thread → ℕ
  /-- the calls with smaller tickets were made before the latest broadcast that is complete -/
  latest : ℕ
  /-- the calls that were notified -/
  served : Finset ℕ
  /-- the calls that have returned -/
  returned : Finset ℕ

/-- The condition variable with its lock, and the threads. -/
structure Cv (Thread : Type*) where
  lock : BinSem.Sem Thread
  ntfn : Notification Thread
  waiters : ℤ
  broadcasting : Bool
  pc : Thread → Pc
  hist : History Thread

/-- A thread goes on. -/
def Cv.goto (s : Cv Thread) (t : Thread) (p : Pc) : Cv Thread :=
  { s with pc := Function.update s.pc t p }

/-- A thread is notified. -/
def Cv.notify (s : Cv Thread) (t : Thread) : Cv Thread :=
  { s.goto t .notified with
    hist := { s.hist with served := insert (s.hist.ticket t) s.hist.served } }

/-- A signal. -/
def Cv.deliver (s : Cv Thread) (woken : Option Thread) (n : Notification Thread) : Cv Thread :=
  match woken with
  | none => { s with ntfn := n }
  | some u => { s.notify u with ntfn := n }

/-- A call returns: a call of `sync_cv_wait` is recorded, or a broadcast is complete. -/
def History.finish (h : History Thread) (t : Thread) : Pc → History Thread
  | .testing | .relaying | .ending => { h with returned := insert (h.ticket t) h.returned }
  | .castSignal _ => { h with latest := max h.latest (h.cast t) }
  | _ => h

/-- The thread returns from the function it is in. -/
def Cv.finish (s : Cv Thread) (t : Thread) : Cv Thread :=
  { s.goto t .idle with hist := s.hist.finish t (s.pc t) }

/-- The thread is in `sync_bin_sem_post`. -/
def Pc.posts : Pc → Bool
  | .posting | .releasing | .releaseOnly => true
  | _ => false

/-- The thread is before `seL4_Signal`. -/
def Pc.signals : Pc → Bool
  | .relaying | .signalling | .castSignal _ => true
  | _ => false

/-- One step of a thread. -/
inductive Step (t : Thread) (s : Cv Thread) : Cv Thread → Prop where
  /-- outside the thread uses the lock -/
  | lock (l : BinSem.Sem Thread) : s.pc t = .idle → BinSem.Step t s.lock l →
      Step t s { s with lock := l }
  | post (l : BinSem.Sem Thread) : (s.pc t).posts = true → s.lock.pc t ≠ .outside →
      BinSem.Step t s.lock l → Step t s { s with lock := l }
  | relock (l : BinSem.Sem Thread) : s.pc t = .notified → s.lock.pc t ≠ .holding →
      (s.lock.pc t = .outside → s.lock.value ≠ BinSem.intMin) → BinSem.Step t s.lock l →
      Step t s { s with lock := l }
  /-- the lock cannot be taken, and the error is returned -/
  | relockFails : s.pc t = .notified → s.lock.pc t = .outside → s.lock.value = BinSem.intMin →
      Step t s (s.goto t .idle)
  /-- `sync_cv_wait` -/
  | wait : s.pc t = .idle → s.lock.pc t = .holding →
      Step t s { s.goto t .entering with
        hist := { s.hist with
          clock := s.hist.clock + 1
          ticket := Function.update s.hist.ticket t s.hist.clock } }
  | load : s.pc t = .entering → Step t s (s.goto t (.adding s.waiters))
  | add (waiters : ℤ) : s.pc t = .adding waiters →
      Step t s { s.goto t .resetting with waiters := waiters + 1 }
  | reset : s.pc t = .resetting → Step t s { s.goto t .posting with broadcasting := false }
  | posted : s.pc t = .posting → s.lock.pc t = .outside → Step t s (s.goto t .arriving)
  | take : s.pc t = .arriving → s.ntfn.token = true →
      Step t s { s.notify t with ntfn := s.ntfn.take }
  | block : s.pc t = .arriving → s.ntfn.token = false →
      Step t s { s.goto t .blocked with ntfn := s.ntfn.enqueue t }
  | relocked : s.pc t = .notified → s.lock.pc t = .holding → Step t s (s.goto t .leaving)
  | unload : s.pc t = .leaving → Step t s (s.goto t (.subtracting s.waiters))
  | subtract (waiters : ℤ) : s.pc t = .subtracting waiters →
      Step t s { s.goto t .testing with waiters := waiters - 1 }
  | test : s.pc t = .testing →
      Step t s (if s.broadcasting then s.goto t .counting else s.finish t)
  | testCount : s.pc t = .counting →
      Step t s (s.goto t (if s.waiters > 0 then .relaying else .ending))
  | endCast : s.pc t = .ending → Step t s { s.finish t with broadcasting := false }
  /-- `sync_cv_signal` -/
  | signalCall : s.pc t = .idle → s.lock.pc t = .holding → Step t s (s.goto t .signalTest)
  | testSignal : s.pc t = .signalTest →
      Step t s (s.goto t (if s.waiters > 0 then .signalling else .idle))
  /-- `sync_cv_broadcast` and `sync_cv_broadcast_release` -/
  | castCall (release : Bool) : s.pc t = .idle → s.lock.pc t = .holding →
      Step t s (s.goto t (.castTest release))
  | testCast (release : Bool) : s.pc t = .castTest release → s.waiters > 0 →
      Step t s { s.goto t (.casting release) with
        hist := { s.hist with cast := Function.update s.hist.cast t s.hist.clock } }
  | testCastNone (release : Bool) : s.pc t = .castTest release → ¬s.waiters > 0 →
      Step t s { s.goto t (if release then .releaseOnly else .idle) with
        hist := { s.hist with latest := s.hist.clock } }
  | setCast (release : Bool) : s.pc t = .casting release →
      Step t s { s.goto t (if release then .releasing else .castSignal false) with
        broadcasting := true }
  | released : s.pc t = .releasing → s.lock.pc t = .outside →
      Step t s (s.goto t (.castSignal true))
  | releasedOnly : s.pc t = .releaseOnly → s.lock.pc t = .outside → Step t s (s.goto t .idle)
  /-- `seL4_Signal`, which is the last statement wherever it is called -/
  | signal (woken : Option Thread) (n : Notification Thread) : (s.pc t).signals = true →
      s.ntfn.Signal woken n → Step t s ((s.deliver woken n).finish t)

/-- The start: the lock is free and nobody waits. -/
def Cv.start : Cv Thread where
  lock := .start
  ntfn := ⟨false, ∅⟩
  waiters := 0
  broadcasting := false
  pc := fun _ => .idle
  hist := ⟨0, fun _ => 0, fun _ => 0, 0, ∅, ∅⟩

/-- The states of all interleavings. -/
inductive Reaches : Cv Thread → Prop where
  | start : Reaches .start
  | step {s s' : Cv Thread} (t : Thread) : Reaches s → Step t s s' → Reaches s'

/-! ### Places -/

/-- The thread has entered `sync_cv_wait` and has not been notified. -/
def Pc.waits : Pc → Bool
  | .entering | .adding _ | .resetting | .posting | .arriving | .blocked => true
  | _ => false

/-- The thread was notified and will look at the flag. -/
def Pc.carries : Pc → Bool
  | .notified | .leaving | .subtracting _ | .testing | .counting | .relaying => true
  | _ => false

/-- The thread was notified and has not returned from `sync_cv_wait`. -/
def Pc.inTransit (p : Pc) : Bool := p.carries || p == .ending

/-- The thread is in the count. -/
def Pc.counted : Pc → Bool
  | .resetting | .posting | .arriving | .blocked | .notified | .leaving | .subtracting _ => true
  | _ => false

/-- The thread has the lock. -/
def Pc.critical : Pc → Bool
  | .entering | .adding _ | .resetting | .leaving | .subtracting _ | .testing | .counting
  | .relaying | .ending | .signalTest | .signalling | .castTest _ | .casting _ => true
  | .castSignal release => !release
  | _ => false

/-- The thread has entered `sync_cv_wait` and has not reset the flag. -/
def Pc.isNew : Pc → Bool
  | .entering | .adding _ | .resetting => true
  | _ => false

/-- The thread has set the flag and has not signalled. -/
def Pc.casts : Pc → Bool
  | .releasing | .castSignal _ => true
  | _ => false

/-- The count that a thread has loaded. -/
def Pc.loaded : Pc → Option ℤ
  | .adding waiters => some waiters
  | .subtracting waiters => some waiters
  | _ => none

/-- A thread that will wake the next one, or a token. -/
def Chain (s : Cv Thread) : Prop := s.ntfn.token = true ∨ ∃ t, (s.pc t).carries = true

end SeL4Kernel.CondVar
