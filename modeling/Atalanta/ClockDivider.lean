import Atalanta.Library.Clocked
import Atalanta.Library.Sampling
import Mathlib.Data.Nat.Log

/-! The clock divider `configurable_clock_divider_fpga.sv`. Its output clock has an edge in
the cycles in which the clock enable `en_r` is set. -/

namespace Atalanta.ClockDivider

open Clocked Sampling

def confWidth (maxDivBy : Nat) : Nat := Nat.clog 2 maxDivBy

structure State (maxDivBy : Nat) where
  dividerR : BitVec (confWidth maxDivBy)
  cntR : BitVec (confWidth maxDivBy)
  enR : Bool

-- the literal 1 makes the comparison one of at least 32 bits
def wraps {width : Nat} (cntR dividerR : BitVec width) : Bool :=
  decide (cntR.setWidth (max 32 width) = dividerR.setWidth (max 32 width) - 1)

def next {maxDivBy : Nat} (state : State maxDivBy)
    (dividerConf : BitVec (confWidth maxDivBy)) : State maxDivBy where
  dividerR := dividerConf
  cntR := if wraps state.cntR state.dividerR then 0 else state.cntR + 1
  enR := decide (state.cntR = 0)

def circuit (maxDivBy : Nat) :
    Circuit (State maxDivBy) (BitVec (confWidth maxDivBy)) Bool where
  reset := ⟨1, 0, false⟩
  next := next
  out state _ := state.enR

def countPeriod {width : Nat} (dividerR : BitVec width) : Nat :=
  if dividerR = 0 then 2 ^ width else dividerR.toNat

theorem countPeriod_pos {width : Nat} (dividerR : BitVec width) : 0 < countPeriod dividerR := by
  unfold countPeriod
  split
  · exact Nat.two_pow_pos width
  · rename_i nonzero
    exact BitVec.toNat_pos_of_ne_zero nonzero

theorem countPeriod_le {width : Nat} (dividerR : BitVec width) :
    countPeriod dividerR ≤ 2 ^ width := by
  unfold countPeriod
  split
  · exact Nat.le_refl _
  · exact Nat.le_of_lt dividerR.isLt

theorem countPeriod_ofNat {width divider : Nat} (positive : 1 ≤ divider) :
    countPeriod (BitVec.ofNat width divider) = divider ↔ divider ≤ 2 ^ width := by
  constructor
  · intro same
    rw [← same]
    exact countPeriod_le _
  · intro fits
    unfold countPeriod
    rcases Nat.lt_or_eq_of_le fits with below | top
    · have value : (BitVec.ofNat width divider).toNat = divider := by
        rw [BitVec.toNat_ofNat, Nat.mod_eq_of_lt below]
      rw [if_neg, value]
      intro zero
      rw [zero] at value
      simp at value
      omega
    · have value : (BitVec.ofNat width divider).toNat = 0 := by
        rw [BitVec.toNat_ofNat, top, Nat.mod_self]
      have zero : BitVec.ofNat width divider = 0 :=
        BitVec.eq_of_toNat_eq (value.trans BitVec.toNat_zero.symm)
      rw [if_pos zero, top]

theorem wraps_iff {width : Nat} (cntR dividerR : BitVec width) :
    wraps cntR dividerR = true ↔
      cntR.toNat = (2 ^ max 32 width - 1 + dividerR.toNat) % 2 ^ max 32 width := by
  have small := cntR.isLt
  have inside := dividerR.isLt
  have limit : 2 ^ width ≤ 2 ^ max 32 width := Nat.pow_le_pow_right (by omega) (by omega)
  have one : (1#(max 32 width)).toNat = 1 :=
    Nat.mod_eq_of_lt (Nat.one_lt_two_pow (by omega))
  rw [wraps, decide_eq_true_eq, ← BitVec.toNat_inj]
  simp only [BitVec.ofNat_eq_ofNat, BitVec.toNat_setWidth, BitVec.toNat_sub, one]
  rw [Nat.mod_eq_of_lt (by omega : cntR.toNat < _),
    Nat.mod_eq_of_lt (by omega : dividerR.toNat < _)]

theorem wraps_eq_true {width : Nat} {cntR dividerR : BitVec width}
    (equal : wraps cntR dividerR = true) : cntR.toNat + 1 = countPeriod dividerR := by
  have inside := dividerR.isLt
  have limit : 2 ^ width ≤ 2 ^ max 32 width := Nat.pow_le_pow_right (by omega) (by omega)
  have value := (wraps_iff cntR dividerR).mp equal
  unfold countPeriod
  split
  · rename_i zero
    rw [zero] at value
    simp only [BitVec.ofNat_eq_ofNat, BitVec.toNat_ofNat, Nat.zero_mod, Nat.add_zero] at value
    rw [Nat.mod_eq_of_lt (by omega)] at value
    omega
  · rename_i nonzero
    have positive : 0 < dividerR.toNat :=
      BitVec.toNat_pos_of_ne_zero nonzero
    have round : 2 ^ max 32 width - 1 + dividerR.toNat =
        2 ^ max 32 width + (dividerR.toNat - 1) := by omega
    rw [round, Nat.add_mod_left, Nat.mod_eq_of_lt (by omega)] at value
    omega

theorem wraps_of_lt {width : Nat} {cntR dividerR : BitVec width}
    (last : cntR.toNat + 1 = countPeriod dividerR) (below : cntR.toNat + 1 < 2 ^ width) :
    wraps cntR dividerR = true := by
  have limit : 2 ^ width ≤ 2 ^ max 32 width := Nat.pow_le_pow_right (by omega) (by omega)
  unfold countPeriod at last
  split at last
  · omega
  · have round : 2 ^ max 32 width - 1 + dividerR.toNat = 2 ^ max 32 width + cntR.toNat := by omega
    rw [wraps_iff, round, Nat.add_mod_left, Nat.mod_eq_of_lt (by omega)]

/-- The counter starts over at the end of its period and, when it is past that, at the end of
its range. -/
theorem next_cntR {maxDivBy : Nat} (state : State maxDivBy)
    (dividerConf : BitVec (confWidth maxDivBy)) :
    (next state dividerConf).cntR.toNat =
      if state.cntR.toNat + 1 = countPeriod state.dividerR then 0
      else (state.cntR.toNat + 1) % 2 ^ confWidth maxDivBy := by
  have small := state.cntR.isLt
  have increment : (state.cntR + 1).toNat =
      (state.cntR.toNat + 1) % 2 ^ confWidth maxDivBy := by
    simp [BitVec.toNat_add]
  simp only [next]
  cases equal : wraps state.cntR state.dividerR with
  | true => simp [wraps_eq_true equal]
  | false =>
      simp only [Bool.false_eq_true, if_false]
      rw [increment]
      split
      · rename_i last
        have top : state.cntR.toNat + 1 = 2 ^ confWidth maxDivBy := by
          by_contra other
          rw [wraps_of_lt last (by omega)] at equal
          cases equal
        rw [top, Nat.mod_self]
      · rfl

theorem succ_mod {period : Nat} (positive : 0 < period) (steps : Nat) :
    (steps + 1) % period = if steps % period + 1 = period then 0 else steps % period + 1 := by
  have below := Nat.mod_lt steps positive
  rw [← Nat.mod_add_mod]
  split
  · rename_i last
    rw [last, Nat.mod_self]
  · exact Nat.mod_eq_of_lt (by omega)

section Settled

variable {maxDivBy : Nat} (conf : Nat → BitVec (confWidth maxDivBy))
  (value : BitVec (confWidth maxDivBy)) (stable : Nat)

theorem dividerR_settled (settled : ∀ cycle, stable ≤ cycle → conf cycle = value) (cycle : Nat)
    (after : stable < cycle) : ((circuit maxDivBy).run conf cycle).dividerR = value := by
  cases cycle with
  | zero => omega
  | succ cycle => exact settled cycle (by omega)

theorem cntR_next (settled : ∀ cycle, stable ≤ cycle → conf cycle = value) (cycle : Nat)
    (after : stable < cycle) :
    ((circuit maxDivBy).run conf (cycle + 1)).cntR.toNat =
      if ((circuit maxDivBy).run conf cycle).cntR.toNat + 1 = countPeriod value then 0
      else (((circuit maxDivBy).run conf cycle).cntR.toNat + 1) % 2 ^ confWidth maxDivBy := by
  rw [← dividerR_settled conf value stable settled cycle after]
  exact next_cntR _ _

theorem cntR_returns (settled : ∀ cycle, stable ≤ cycle → conf cycle = value) (room : Nat) :
    ∀ cycle, stable < cycle →
      2 ^ confWidth maxDivBy ≤ ((circuit maxDivBy).run conf cycle).cntR.toNat + room →
      ∃ wait ≤ room, ((circuit maxDivBy).run conf (cycle + wait)).cntR.toNat = 0 := by
  induction room with
  | zero =>
      intro cycle _ full
      have below := ((circuit maxDivBy).run conf cycle).cntR.isLt
      omega
  | succ room ih =>
      intro cycle after full
      have step := cntR_next conf value stable settled cycle after
      by_cases zero : ((circuit maxDivBy).run conf (cycle + 1)).cntR.toNat = 0
      · exact ⟨1, by omega, zero⟩
      · have below := ((circuit maxDivBy).run conf cycle).cntR.isLt
        have advanced : ((circuit maxDivBy).run conf (cycle + 1)).cntR.toNat =
            ((circuit maxDivBy).run conf cycle).cntR.toNat + 1 := by
          split at step
          · exact absurd step zero
          · by_cases top : ((circuit maxDivBy).run conf cycle).cntR.toNat + 1 =
                2 ^ confWidth maxDivBy
            · rw [top, Nat.mod_self] at step
              exact absurd step zero
            · rw [step, Nat.mod_eq_of_lt (by omega)]
        obtain ⟨wait, within, found⟩ := ih (cycle + 1) (by omega) (by omega)
        exact ⟨1 + wait, by omega, by rw [← Nat.add_assoc]; exact found⟩

theorem cntR_periodic (settled : ∀ cycle, stable ≤ cycle → conf cycle = value) (origin : Nat)
    (after : stable < origin) (zero : ((circuit maxDivBy).run conf origin).cntR.toNat = 0)
    (steps : Nat) :
    ((circuit maxDivBy).run conf (origin + steps)).cntR.toNat = steps % countPeriod value := by
  have positive := countPeriod_pos value
  have bound := countPeriod_le value
  induction steps with
  | zero => rw [Nat.zero_mod, Nat.add_zero, zero]
  | succ steps ih =>
      have below := Nat.mod_lt steps positive
      rw [← Nat.add_assoc, cntR_next conf value stable settled _ (by omega), ih,
        succ_mod positive]
      split
      · rfl
      · exact Nat.mod_eq_of_lt (by omega)

theorem enable_edge (settled : ∀ cycle, stable ≤ cycle → conf cycle = value) :
    ∃ phase < countPeriod value, ∀ cycle, stable + 2 ^ confWidth maxDivBy + 1 < cycle →
      (((circuit maxDivBy).run conf cycle).enR = true ↔ Edge (countPeriod value) phase cycle) := by
  have positive := countPeriod_pos value
  obtain ⟨wait, within, zero⟩ := cntR_returns conf value stable settled
    (2 ^ confWidth maxDivBy) (stable + 1) (by omega) (by omega)
  refine ⟨(stable + 1 + wait + 1) % countPeriod value, Nat.mod_lt _ positive, ?_⟩
  intro cycle late
  obtain ⟨steps, rfl⟩ : ∃ steps, cycle = stable + 1 + wait + steps + 1 :=
    ⟨cycle - (stable + 1 + wait) - 1, by omega⟩
  have count := cntR_periodic conf value stable settled _ (by omega) zero steps
  have enabled : ((circuit maxDivBy).run conf (stable + 1 + wait + steps + 1)).enR = true ↔
      steps % countPeriod value = 0 := by
    rw [← count, (circuit maxDivBy).run_succ]
    simp only [circuit, next, decide_eq_true_eq, ← BitVec.toNat_inj]
    simp
  rw [enabled, Edge]
  constructor
  · intro multiple
    rw [Nat.add_right_comm, ← Nat.add_mod_mod, multiple, Nat.add_zero]
  · intro same
    have congruent : stable + 1 + wait + 1 + steps ≡ stable + 1 + wait + 1 + 0
        [MOD countPeriod value] := by
      rw [Nat.add_right_comm]
      exact same
    exact Nat.ModEq.add_left_cancel' _ congruent

end Settled

/-- In every stretch of `divider` cycles that begins after `settled` the clock enable is set
exactly once. -/
def Divides {maxDivBy : Nat} (conf : Nat → BitVec (confWidth maxDivBy)) (settled divider : Nat) :
    Prop :=
  ∀ start, settled ≤ start → ∃! cycle, (start < cycle ∧ cycle ≤ start + divider) ∧
    (circuit maxDivBy).outAt conf cycle = true

/-- When the divider value has been stable for one round of the counter. -/
def settledAt (maxDivBy stable : Nat) : Nat := stable + 2 ^ confWidth maxDivBy + 1

theorem divides_iff {maxDivBy divider : Nat} (positive : 1 ≤ divider)
    (conf : Nat → BitVec (confWidth maxDivBy)) (stable : Nat)
    (settled : ∀ cycle, stable ≤ cycle → conf cycle = BitVec.ofNat _ divider) :
    Divides conf (settledAt maxDivBy stable) divider ↔ divider ≤ 2 ^ confWidth maxDivBy := by
  obtain ⟨phase, inPeriod, edges⟩ := enable_edge conf _ stable settled
  rw [← countPeriod_ofNat positive, eq_comm, ← edge_once_iff inPeriod (settledAt maxDivBy stable)]
  refine forall_congr' fun start => forall_congr' fun late => existsUnique_congr fun cycle => ?_
  refine and_congr_right fun bounds => ?_
  exact edges cycle (Nat.lt_of_le_of_lt late bounds.1)

/-! The instance in `rt_peripherals.sv` -/

def rtPeripheralsMaxDivBy : Nat := 3

/-- The four bits of `periph_div` at the port of the divider, which keeps its own width. -/
def periphConf (periphDiv : Nat → BitVec 4) (cycle : Nat) :
    BitVec (confWidth rtPeripheralsMaxDivBy) :=
  (periphDiv cycle).setWidth _

theorem confWidth_rtPeripherals : confWidth rtPeripheralsMaxDivBy = 2 := by
  decide

theorem periphConf_settled {divider stable : Nat} {periphDiv : Nat → BitVec 4}
    (fits : divider ≤ 15)
    (settled : ∀ cycle, stable ≤ cycle → periphDiv cycle = BitVec.ofNat 4 divider)
    (cycle : Nat) (after : stable ≤ cycle) :
    periphConf periphDiv cycle = BitVec.ofNat _ divider := by
  rw [periphConf, settled cycle after]
  apply BitVec.eq_of_toNat_eq
  rw [BitVec.toNat_setWidth, BitVec.toNat_ofNat, BitVec.toNat_ofNat,
    Nat.mod_eq_of_lt (by omega : divider < 2 ^ 4)]

theorem periph_divides_iff {divider stable : Nat} {periphDiv : Nat → BitVec 4}
    (positive : 1 ≤ divider) (fits : divider ≤ 15)
    (settled : ∀ cycle, stable ≤ cycle → periphDiv cycle = BitVec.ofNat 4 divider) :
    Divides (periphConf periphDiv) (settledAt rtPeripheralsMaxDivBy stable) divider ↔
      divider ≤ 4 := by
  rw [divides_iff positive _ stable (periphConf_settled fits settled), confWidth_rtPeripherals]
  exact Iff.rfl

/-- The divider of the peripheral clock divides by the programmed value exactly up to 4, as
its two bits cannot hold more; an instance whose `MAX_DIV_BY` covers the value divides by it. -/
theorem programmed_divider_iff {divider : Nat} (positive : 1 ≤ divider) (stable : Nat) :
    (divider ≤ 15 → ∀ periphDiv : Nat → BitVec 4,
      (∀ cycle, stable ≤ cycle → periphDiv cycle = BitVec.ofNat 4 divider) →
      (Divides (periphConf periphDiv) (settledAt rtPeripheralsMaxDivBy stable) divider ↔
        divider ≤ 4)) ∧
    (∀ maxDivBy, 2 ≤ maxDivBy → divider ≤ maxDivBy →
      ∀ conf : Nat → BitVec (confWidth maxDivBy),
        (∀ cycle, stable ≤ cycle → conf cycle = BitVec.ofNat _ divider) →
        Divides conf (settledAt maxDivBy stable) divider) := by
  constructor
  · intro fits periphDiv settled
    exact periph_divides_iff positive fits settled
  · intro maxDivBy _ fits conf settled
    have covered : maxDivBy ≤ 2 ^ confWidth maxDivBy := Nat.le_pow_clog (by omega) maxDivBy
    exact (divides_iff positive conf stable settled).mpr (le_trans fits covered)

theorem programmed_divider_four :
    Divides (periphConf fun _ => 4) (settledAt rtPeripheralsMaxDivBy 0) 4 :=
  ((programmed_divider_iff (by decide) 0).1 (by decide) (fun _ => 4) fun _ _ => rfl).mpr
    (by decide)

/-- With the divider set to 5 the peripheral clock does not divide by 5: it is enabled in
every cycle. -/
theorem divide_by_five_fails :
    ¬Divides (periphConf fun _ => 5) (settledAt rtPeripheralsMaxDivBy 0) 5 ∧
      Divides (periphConf fun _ => 5) (settledAt rtPeripheralsMaxDivBy 0) 1 := by
  have port : ∀ cycle, 0 ≤ cycle → periphConf (fun _ => 5) cycle = BitVec.ofNat _ 1 := by
    intro cycle _
    change (5#4).setWidth _ = BitVec.ofNat _ 1
    decide
  have exact : Divides (periphConf fun _ => 5) (settledAt rtPeripheralsMaxDivBy 0) 5 ↔ 5 ≤ 4 :=
    periph_divides_iff (by decide) (by decide) fun _ _ => rfl
  refine ⟨fun divides => ?_, (divides_iff (by decide) _ 0 port).mpr Nat.one_le_two_pow⟩
  exact absurd (exact.mp divides) (by decide)

end Atalanta.ClockDivider
