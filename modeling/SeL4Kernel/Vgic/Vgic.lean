import SeL4Kernel.Lib.ArrayLists
import SeL4Kernel.Lib.Outcome

/-!
# The list registers of a virtual interrupt controller

`vgic.c` of `libsel4vm`: an interrupt for a virtual CPU is put into a free list register, of which
the controller keeps a shadow, or into a ring of interrupts that overflow. A maintenance interrupt
says that the guest is done with a list register; the interrupt is acknowledged, and those that
overflowed are injected once more.

The shadow has pointers. The pointer of an interrupt that overflowed is the address of its place
in the ring.
-/

namespace SeL4Kernel.Vgic

open Function

/-- `MAX_LR_OVERFLOW`. -/
def maxLrOverflow : ℕ := 64

/-- `LR_OF_NEXT`. -/
def lrOfNext (i : ℕ) : ℕ := if i = maxLrOverflow - 1 then 0 else i + 1

inductive Failure where
  | assertion
  | outOfBounds
  | noReturn
  deriving DecidableEq, Repr

/-- A pointer to an interrupt: to the handle of a client, or into the ring. -/
inductive Ref (V : Type) where
  | handle (irq : V)
  | slot (i : ℕ)
  deriving DecidableEq, Repr

/-- `struct lr_of`. -/
structure LrOf (V : Type) where
  irqs : ℕ → V
  head : ℕ
  tail : ℕ
  full : Bool

/-- What belongs to one virtual CPU: the shadow and the ring of `vgic_t`, and the hardware. -/
structure Cpu (V : Type) where
  irq : ℕ → Option (Ref V)
  lrOverflow : LrOf V
  /-- The list registers. -/
  lr : ℕ → Option V
  /-- What was put into list registers so far. -/
  loads : List V

variable {V : Type}

/-- Everything is empty; the places of the ring have some value. -/
def init (zero : V) : Cpu V := ⟨fun _ => none, ⟨fun _ => zero, 0, 0, false⟩, fun _ => none, []⟩

namespace Cpu

def deref (s : Cpu V) : Ref V → V
  | .handle irq => irq
  | .slot i => s.lrOverflow.irqs i

/-- `seL4_ARM_VCPU_InjectIRQ` with a free list register, and the shadow of it. -/
def load (s : Cpu V) (i : ℕ) (irq : Ref V) : Cpu V :=
  { s with
    irq := update s.irq i (some irq)
    lr := update s.lr i (some (s.deref irq))
    loads := s.loads ++ [s.deref irq] }

/-- An interrupt is written to the end of the ring. -/
def enqueue (s : Cpu V) (irq : Ref V) : Cpu V :=
  { s with
    lrOverflow :=
      { s.lrOverflow with
        irqs := update s.lrOverflow.irqs s.lrOverflow.tail (s.deref irq)
        tail := lrOfNext s.lrOverflow.tail } }

/-- An interrupt is written to the last free place of the ring. -/
def fill (s : Cpu V) (irq : Ref V) : Cpu V :=
  { s with
    lrOverflow :=
      { s.lrOverflow with
        irqs := update s.lrOverflow.irqs s.lrOverflow.tail (s.deref irq)
        full := true } }

/-- The first interrupt of the ring is done. -/
def advance (s : Cpu V) (i : ℕ) : Cpu V :=
  { s with
    lrOverflow :=
      { s.lrOverflow with
        head := lrOfNext i
        full := decide (lrOfNext i = lrOfNext s.lrOverflow.tail) } }

end Cpu

/-- `vgic_add_overflow_cpu`. -/
def vgicAddOverflow (irq : Ref V) (s : Cpu V) : ℤ × Cpu V :=
  if s.lrOverflow.full then (-1, s)
  else if s.lrOverflow.head = lrOfNext s.lrOverflow.tail then (0, s.fill irq)
  else (0, s.enqueue irq)

/-- The loop of `vgic_vcpu_inject_irq` over the shadow, which has one entry less than the rounds of
the loop. -/
def freeIndex (irq : ℕ → Option (Ref V)) : ℕ → ℕ → Except Failure ℕ
  | 0, i => .ok i
  | left + 1, i =>
    if maxLrOverflow - 1 ≤ i then .error .outOfBounds
    else
      match irq i with
      | none => .ok i
      | some _ => freeIndex irq left (i + 1)

/-- `vgic_vcpu_inject_irq` on a machine with `numLr` list registers. -/
def vgicVcpuInjectIrq (numLr : ℕ) (irq : Ref V) (s : Cpu V) : Except Failure (ℤ × Cpu V) := do
  let i ← freeIndex s.irq maxLrOverflow 0
  if i < numLr then
    if i < 4 then .ok (0, s.load i irq) else .error .assertion
  else .ok (vgicAddOverflow irq s)

/-- The loop of `vgic_handle_overflow_cpu`. -/
def handleOverflowLoop (numLr tail : ℕ) : ℕ → ℕ → Cpu V → Except Failure (Cpu V)
  | 0, _, _ => .error .noReturn
  | fuel + 1, i, s =>
    if i = tail then .ok s
    else do
      let (err, s) ← vgicVcpuInjectIrq numLr (.slot i) s
      if err = 0 then handleOverflowLoop numLr tail fuel (lrOfNext i) (s.advance i)
      else .ok s

/-- `vgic_handle_overflow_cpu`. -/
def vgicHandleOverflow (numLr : ℕ) (s : Cpu V) : Except Failure (Cpu V) :=
  handleOverflowLoop numLr s.lrOverflow.tail (maxLrOverflow + 1) s.lrOverflow.head s

/-- `handle_vgic_maintenance`, with the interrupt that is acknowledged. -/
def handleVgicMaintenance (numLr idx : ℕ) (s : Cpu V) : Except Failure (V × Cpu V) :=
  match s.irq idx with
  | none => .error .assertion
  | some irq => do
    let s' ← vgicHandleOverflow numLr
      { s with irq := update s.irq idx none, lr := update s.lr idx none }
    .ok (s.deref irq, s')

end SeL4Kernel.Vgic
