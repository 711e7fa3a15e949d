import Atalanta.Bsp.Mmio
import Mathlib.Algebra.Ring.Nat

/-! Integer arithmetic of the drivers with the panics that it can end in, and the divider of the
peripheral clock by which they scale durations. -/

namespace Atalanta.Bsp

inductive Panic
  | divisionByZero
  | overflow
  | assertion
deriving DecidableEq, Repr

def orPanic {τ υ : Type} (result : Except Panic τ) (continuation : τ → Driver (Except Panic υ)) :
    Driver (Except Panic υ) :=
  match result with
  | .error panic => return .error panic
  | .ok value => continuation value

def checkedDiv {w : Nat} (x y : BitVec w) : Except Panic (BitVec w) :=
  if y = 0 then .error .divisionByZero else .ok (x / y)

-- without overflow checks the result wraps
def checkedAdd {w : Nat} (overflowChecks : Bool) (x y : BitVec w) : Except Panic (BitVec w) :=
  if overflowChecks && decide (2 ^ w ≤ x.toNat + y.toNat) then .error .overflow else .ok (x + y)

def checkedMul {w : Nat} (overflowChecks : Bool) (x y : BitVec w) : Except Panic (BitVec w) :=
  if overflowChecks && decide (2 ^ w ≤ x.toNat * y.toNat) then .error .overflow else .ok (x * y)

def cfgBase : BitVec 32 := 0x30500

def periphClkDivOfs : BitVec 32 := 0x0

def pclkDiv : Driver (BitVec 8) := readU8Masked (cfgBase + periphClkDivOfs) 0xf

theorem checkedDiv_of_ne {w : Nat} (x : BitVec w) {y : BitVec w} (nonzero : y ≠ 0) :
    checkedDiv x y = .ok (x / y) := if_neg nonzero

theorem widened_toNat {w : Nat} (wide : 8 ≤ w) (div : BitVec 4) :
    ((div.setWidth 8).setWidth w).toNat = div.toNat := by
  have small := div.isLt
  have power : 2 ^ 8 ≤ 2 ^ w := Nat.pow_le_pow_right (by decide) wide
  rw [BitVec.toNat_setWidth, BitVec.toNat_setWidth, Nat.mod_eq_of_lt (by omega),
    Nat.mod_eq_of_lt (by omega)]

theorem checkedDiv_widened {w : Nat} (wide : 8 ≤ w) (x : BitVec w) {div : BitVec 4}
    (nonzero : div ≠ 0) :
    ∃ quotient, checkedDiv x ((div.setWidth 8).setWidth w) = .ok quotient ∧
      quotient.toNat = x.toNat / div.toNat := by
  refine ⟨_, checkedDiv_of_ne x fun zero => nonzero ?_, ?_⟩
  · apply BitVec.eq_of_toNat_eq
    rw [← widened_toNat wide div, zero]
    exact Nat.zero_mod _
  · rw [BitVec.toNat_udiv, widened_toNat wide div]

theorem checkedAdd_of_lt {w : Nat} (overflowChecks : Bool) {x y : BitVec w}
    (noOverflow : x.toNat + y.toNat < 2 ^ w) : checkedAdd overflowChecks x y = .ok (x + y) := by
  simp [checkedAdd, noOverflow]

theorem checkedMul_of_lt {w : Nat} (overflowChecks : Bool) {x y : BitVec w}
    (noOverflow : x.toNat * y.toNat < 2 ^ w) : checkedMul overflowChecks x y = .ok (x * y) := by
  simp [checkedMul, noOverflow]

end Atalanta.Bsp
