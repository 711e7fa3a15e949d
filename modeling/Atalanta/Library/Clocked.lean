/-! Synchronous circuits. A circuit has registers, reads one input in each clock
cycle and drives its outputs combinationally from both. Runs take an unbounded
input stream; everything here holds for arbitrary register and signal types. -/

namespace Clocked

structure Circuit (σ ι ο : Type) where
  reset : σ
  next : σ → ι → σ
  out : σ → ι → ο

variable {σ τ ι κ ο : Type}

/-- Register contents at the start of a cycle of the run that begins in `start`. -/
def Circuit.runFrom (circuit : Circuit σ ι ο) (start : σ) (input : Nat → ι) : Nat → σ
  | 0 => start
  | cycle + 1 => circuit.next (circuit.runFrom start input cycle) (input cycle)

def Circuit.run (circuit : Circuit σ ι ο) (input : Nat → ι) : Nat → σ :=
  circuit.runFrom circuit.reset input

def Circuit.outFrom (circuit : Circuit σ ι ο) (start : σ) (input : Nat → ι) (cycle : Nat) : ο :=
  circuit.out (circuit.runFrom start input cycle) (input cycle)

def Circuit.outAt (circuit : Circuit σ ι ο) (input : Nat → ι) : Nat → ο :=
  circuit.outFrom circuit.reset input

inductive Circuit.Reachable (circuit : Circuit σ ι ο) : σ → Prop
  | reset : Reachable circuit circuit.reset
  | next {state : σ} (input : ι) : Reachable circuit state →
      Reachable circuit (circuit.next state input)

@[simp] theorem Circuit.runFrom_zero (circuit : Circuit σ ι ο) (start : σ) (input : Nat → ι) :
    circuit.runFrom start input 0 = start := rfl

theorem Circuit.runFrom_succ (circuit : Circuit σ ι ο) (start : σ) (input : Nat → ι)
    (cycle : Nat) :
    circuit.runFrom start input (cycle + 1) =
      circuit.next (circuit.runFrom start input cycle) (input cycle) := rfl

@[simp] theorem Circuit.run_zero (circuit : Circuit σ ι ο) (input : Nat → ι) :
    circuit.run input 0 = circuit.reset := rfl

theorem Circuit.run_succ (circuit : Circuit σ ι ο) (input : Nat → ι) (cycle : Nat) :
    circuit.run input (cycle + 1) = circuit.next (circuit.run input cycle) (input cycle) := rfl

theorem Circuit.run_congr (circuit : Circuit σ ι ο) {left right : Nat → ι}
    (same : ∀ cycle state, circuit.next state (left cycle) = circuit.next state (right cycle)) :
    circuit.run left = circuit.run right := by
  funext cycle
  induction cycle with
  | zero => rfl
  | succ cycle ih => rw [circuit.run_succ, circuit.run_succ, ih, same cycle]

theorem Circuit.Reachable.invariant {circuit : Circuit σ ι ο} (good : σ → Prop)
    (atReset : good circuit.reset)
    (kept : ∀ state input, good state → good (circuit.next state input))
    {state : σ} (reached : circuit.Reachable state) : good state := by
  induction reached with
  | reset => exact atReset
  | next input _ ih => exact kept _ input ih

theorem Circuit.Reachable.runFrom {circuit : Circuit σ ι ο} {start : σ}
    (reached : circuit.Reachable start) (input : Nat → ι) (cycle : Nat) :
    circuit.Reachable (circuit.runFrom start input cycle) := by
  induction cycle with
  | zero => exact reached
  | succ cycle ih => exact .next (input cycle) ih

/-- Two circuits stay related along a run as long as every step of the run keeps
the relation. The step may use that the relation held in the cycle before. -/
theorem Circuit.lockstep (left : Circuit σ ι ο) (right : Circuit τ κ ο)
    (related : σ → τ → Prop) {leftStart : σ} {rightStart : τ}
    (leftInput : Nat → ι) (rightInput : Nat → κ)
    (atStart : related leftStart rightStart) (last : Nat)
    (kept : ∀ cycle < last,
      related (left.runFrom leftStart leftInput cycle) (right.runFrom rightStart rightInput cycle) →
      related (left.next (left.runFrom leftStart leftInput cycle) (leftInput cycle))
        (right.next (right.runFrom rightStart rightInput cycle) (rightInput cycle))) :
    ∀ cycle ≤ last,
      related (left.runFrom leftStart leftInput cycle)
        (right.runFrom rightStart rightInput cycle) := by
  intro cycle bound
  induction cycle with
  | zero => exact atStart
  | succ cycle ih => exact kept cycle (by omega) (ih (by omega))

end Clocked
